import Brainfuck.Program
import Brainfuck.Proofs.Brackets

/-!
This module contains the verification of `Program.parse`: it accepts exactly the balanced programs, and
the table of jumps that it fills is exactly the relation between partners. The pass over the code keeps
the invariant `Scanned`, whose core is how the open brackets cut the code that was seen into balanced
pieces.
-/

namespace Brainfuck

/--
`Unclosed code stack`: the positions on the stack are those of the brackets of `code` that wait for their
partner, innermost first. Between any two of them the code is balanced.
-/
inductive Unclosed : List Instruction → List Nat → Prop where
  | nil {code : List Instruction} (h : Balanced code) : Unclosed code []
  | cons {code body : List Instruction} {stack : List Nat} (h : Unclosed code stack)
      (hbody : Balanced body) : Unclosed (code ++ .loopOpen :: body) (code.length :: stack)

namespace Unclosed

variable {code more : List Instruction} {stack : List Nat} {partner : Nat}

theorem balanced (h : Unclosed code []) : Balanced code := by
  cases h with
  | nil h => exact h

theorem exists_body (h : Unclosed code (partner :: stack))
    : ∃ before body,
        code = before ++ .loopOpen :: body ∧ Balanced body ∧ before.length = partner ∧
          Unclosed before stack := by
  cases h with
  | cons h hbody => exact ⟨_, _, rfl, hbody, rfl, h⟩

theorem append (h : Unclosed code stack) (hmore : Balanced more) : Unclosed (code ++ more) stack := by
  cases h with
  | nil h => exact .nil (h.append hmore)
  | cons h hbody =>
    rw [List.append_assoc, List.cons_append]
    exact .cons h (hbody.append hmore)

theorem push (h : Unclosed code stack) : Unclosed (code ++ [.loopOpen]) (code.length :: stack) :=
  .cons h .nil

theorem pop (h : Unclosed code (partner :: stack)) : Unclosed (code ++ [.loopClose]) stack := by
  obtain ⟨before, body, rfl, hbody, _, hbefore⟩ := h.exists_body
  rw [List.append_assoc, List.cons_append]
  exact hbefore.append hbody.enclose

theorem depth_eq (h : Unclosed code stack) : depth code = stack.length := by
  induction h with
  | nil h => rw [h.depth_eq_zero, List.length_nil, Int.natCast_zero]
  | cons h hbody ih =>
    rw [depth_append, depth_cons_loopOpen, ih, hbody.depth_eq_zero, List.length_cons]
    omega

end Unclosed

/--
The invariant of the pass over a program. `jumps` relates exactly the partners among the instructions
`seen` so far, and every bracket of these has its partner or waits for it on the stack.
-/
structure Scanned (seen : List Instruction) (stack : List Nat) (jumps : Array (Option Nat)) : Prop where
  unclosed : Unclosed seen stack
  jump_iff : ∀ i j, jumps[i]?.join = some j ↔ Partners seen i j ∨ Partners seen j i
  opening : ∀ i, seen[i]? = some .loopOpen → i ∈ stack ∨ ∃ j, Partners seen i j
  closing : ∀ j, seen[j]? = some .loopClose → ∃ i, Partners seen i j

theorem getElem?_concat_cases {code : List Instruction} {last i : Instruction} {k : Nat}
    (h : (code ++ [last])[k]? = some i) : code[k]? = some i ∨ (k = code.length ∧ last = i) := by
  rw [List.getElem?_append] at h
  split at h
  . exact .inl h
  . rw [List.getElem?_singleton] at h
    split at h
    . next hge hk =>
      refine .inr ⟨by omega, ?_⟩
      simpa using h
    . contradiction

theorem getElem?_join_pair {jumps : Array (Option Nat)} {a b : Nat} (ha : a < jumps.size)
    (hb : b < jumps.size) (i : Nat)
    : ((jumps.setIfInBounds b (some a)).setIfInBounds a (some b))[i]?.join
        =
      if i = a then some b else if i = b then some a else jumps[i]?.join := by
  rw [Array.getElem?_setIfInBounds]
  split
  . next h =>
    subst h
    rw [Array.size_setIfInBounds, if_pos ha, if_pos rfl]
    rfl
  . next h =>
    rw [if_neg (Ne.symm h), Array.getElem?_setIfInBounds]
    split
    . next h' =>
      subst h'
      rw [if_pos rfl]
      rfl
    . next h' => rw [if_neg (Ne.symm h')]

namespace Scanned

variable {seen : List Instruction} {stack : List Nat} {jumps : Array (Option Nat)} {partner : Nat}

theorem start (length : Nat) : Scanned [] [] (.replicate length none) where
  unclosed := .nil .nil
  jump_iff i j := by
    constructor
    . intro h
      simp only [Array.getElem?_replicate] at h
      split at h <;> simp at h
    . rintro (h | h)
      . exact absurd h.lt_length (by simp)
      . exact absurd h.lt_length (by simp)
  opening i h := by simp at h
  closing j h := by simp at h

theorem lift_opening (h : Scanned seen stack jumps) (last : Instruction) {i : Nat}
    (hi : seen[i]? = some .loopOpen) : i ∈ stack ∨ ∃ j, Partners (seen ++ [last]) i j := by
  cases h.opening i hi with
  | inl hmem => exact .inl hmem
  | inr hpartner =>
    obtain ⟨j, hj⟩ := hpartner
    exact .inr ⟨j, hj.append [last]⟩

theorem lift_closing (h : Scanned seen stack jumps) (last : Instruction) {j : Nat}
    (hj : seen[j]? = some .loopClose) : ∃ i, Partners (seen ++ [last]) i j := by
  obtain ⟨i, hi⟩ := h.closing j hj
  exact ⟨i, hi.append [last]⟩

theorem partners_concat_of_ne {last : Instruction} (hlast : last ≠ .loopClose) {i j : Nat}
    : Partners (seen ++ [last]) i j ↔ Partners seen i j := by
  rw [partners_concat]
  constructor
  . rintro (h | ⟨h, _⟩)
    . exact h
    . exact absurd h hlast
  . exact .inl

theorem plain (h : Scanned seen stack jumps) {i : Instruction} (hi : ¬i.IsBracket)
    : Scanned (seen ++ [i]) stack jumps where
  unclosed := h.unclosed.append (.singleton hi)
  jump_iff a b := by
    have hne : i ≠ .loopClose := fun heq => hi (.inr heq)
    rw [partners_concat_of_ne hne, partners_concat_of_ne hne]
    apply h.jump_iff
  opening a ha := by
    obtain ha | ⟨_, heq⟩ := getElem?_concat_cases ha
    . exact h.lift_opening i ha
    . exact absurd (.inl heq) hi
  closing a ha := by
    obtain ha | ⟨_, heq⟩ := getElem?_concat_cases ha
    . exact h.lift_closing i ha
    . exact absurd (.inr heq) hi

theorem open_bracket (h : Scanned seen stack jumps)
    : Scanned (seen ++ [.loopOpen]) (seen.length :: stack) jumps where
  unclosed := h.unclosed.push
  jump_iff a b := by
    rw [partners_concat_of_ne (by decide), partners_concat_of_ne (by decide)]
    apply h.jump_iff
  opening a ha := by
    obtain ha | ⟨ha, _⟩ := getElem?_concat_cases ha
    . cases h.lift_opening .loopOpen ha with
      | inl hmem => exact .inl (.tail _ hmem)
      | inr hpartner => exact .inr hpartner
    . subst ha
      exact .inl (.head _)
  closing a ha := by
    obtain ha | ⟨_, heq⟩ := getElem?_concat_cases ha
    . exact h.lift_closing .loopOpen ha
    . contradiction

theorem partners_new (h : Scanned seen (partner :: stack) jumps)
    : Partners (seen ++ [.loopClose]) partner seen.length := by
  obtain ⟨before, body, hseen, hbody, hlen, _⟩ := h.unclosed.exists_body
  rw [partners_concat]
  exact .inr ⟨rfl, rfl, before, body, hseen, hbody, hlen⟩

theorem partners_concat_loopClose (h : Scanned seen (partner :: stack) jumps) {i j : Nat}
    : Partners (seen ++ [.loopClose]) i j
        ↔
      Partners seen i j ∨ (i = partner ∧ j = seen.length) := by
  constructor
  . intro hij
    obtain hij' | ⟨_, rfl, _⟩ := partners_concat.1 hij
    . exact .inl hij'
    . exact .inr ⟨hij.left_unique h.partners_new, rfl⟩
  . rintro (hij | ⟨rfl, rfl⟩)
    . exact hij.append _
    . exact h.partners_new

-- A bracket that still waits on the stack has had no partner so far, on neither side.
theorem not_partners_right (h : Scanned seen (partner :: stack) jumps) (j : Nat)
    : ¬Partners seen partner j := by
  intro hj
  have hlt := hj.lt_length
  have heq := (hj.append _).right_unique h.partners_new
  omega

theorem not_partners_left (h : Scanned seen (partner :: stack) jumps) (i : Nat)
    : ¬Partners seen i partner := by
  intro hi
  have hopen := h.partners_new.opening
  rw [List.getElem?_append_left h.partners_new.lt, hi.closing] at hopen
  contradiction

theorem close_bracket (h : Scanned seen (partner :: stack) jumps) (hsize : seen.length < jumps.size)
    : Scanned (seen ++ [.loopClose]) stack
        ((jumps.setIfInBounds seen.length (some partner)).setIfInBounds partner (some seen.length)) where
  unclosed := h.unclosed.pop
  jump_iff a b := by
    have hlt := h.partners_new.lt
    rw [getElem?_join_pair (by omega) hsize, h.partners_concat_loopClose, h.partners_concat_loopClose]
    split
    . next ha =>
      subst ha
      have hne : a ≠ seen.length := by omega
      simp [h.not_partners_right, h.not_partners_left, hne, eq_comm]
    . next ha =>
      split
      . next hpos =>
        subst hpos
        have hright : ¬Partners seen seen.length b := by
          intro hab
          have := hab.lt
          have := hab.lt_length
          omega
        have hleft : ¬Partners seen b seen.length := by
          intro hba
          have := hba.lt_length
          omega
        simp [hright, hleft, ha, eq_comm]
      . next hpos =>
        rw [h.jump_iff]
        simp [ha, hpos]
  opening a ha := by
    obtain ha | ⟨_, heq⟩ := getElem?_concat_cases ha
    . cases h.lift_opening .loopClose ha with
      | inl hmem =>
        cases hmem with
        | head => exact .inr ⟨_, h.partners_new⟩
        | tail _ hmem => exact .inl hmem
      | inr hpartner => exact .inr hpartner
    . contradiction
  closing a ha := by
    obtain ha | ⟨rfl, _⟩ := getElem?_concat_cases ha
    . exact h.lift_closing .loopClose ha
    . exact ⟨partner, h.partners_new⟩

end Scanned

/--
What can come of matching the brackets of `code`: the table of all partners, the first closing bracket
that finds none open, or the outermost bracket that is never closed.
-/
inductive Matched (code : List Instruction) : Except Fault (Array (Option Nat)) → Prop where
  | ok {jumps : Array (Option Nat)} (h : Scanned code [] jumps) : Matched code (.ok jumps)
  | stray {front back : List Instruction} (hcode : code = front ++ .loopClose :: back)
      (h : Balanced front) : Matched code (.error (.unmatched .closing front.length))
  | unclosed {stack : List Nat} {position : Nat} (h : Unclosed code stack)
      (hlast : stack.getLast? = some position) : Matched code (.error (.unmatched .opening position))

theorem Scanned.exists_partner {code : List Instruction} {jumps : Array (Option Nat)}
    (h : Scanned code [] jumps) {i : Nat} (hi : code[i]? = some .loopOpen) : ∃ j, Partners code i j := by
  cases h.opening i hi with
  | inl hmem => contradiction
  | inr hpartner => exact hpartner

namespace Program

theorem matchBrackets.go_plain {i : Instruction} (hi : ¬i.IsBracket) (rest : List Instruction)
    (position : Nat) (stack : List Nat) (jumps : Array (Option Nat))
    : go (i :: rest) position stack jumps = go rest (position + 1) stack jumps := by
  cases i with
  | loopOpen => exact absurd (.inl rfl) hi
  | loopClose => exact absurd (.inr rfl) hi
  | _ => simp only [go]

theorem matchBrackets.go_matched {seen : List Instruction} {stack : List Nat}
    {jumps : Array (Option Nat)} (h : Scanned seen stack jumps) (rest : List Instruction)
    (hsize : seen.length + rest.length ≤ jumps.size)
    : Matched (seen ++ rest) (go rest seen.length stack jumps) := by
  induction rest generalizing seen stack jumps with
  | nil =>
    rw [List.append_nil]
    unfold go
    split
    . next hlast =>
      rw [List.getLast?_eq_none_iff] at hlast
      subst hlast
      exact .ok h
    . next outermost hlast => exact .unclosed h.unclosed hlast
  | cons i rest ih =>
    rw [List.length_cons] at hsize
    rw [show seen ++ i :: rest = (seen ++ [i]) ++ rest by simp]
    by_cases hi : i.IsBracket
    . cases hi with
      | inl hi =>
        subst hi
        unfold go
        rw [show seen.length + 1 = (seen ++ [Instruction.loopOpen]).length by simp]
        apply ih h.open_bracket
        simp only [List.length_append, List.length_singleton]
        omega
      | inr hi =>
        subst hi
        cases stack with
        | nil =>
          unfold go
          exact .stray (List.append_assoc seen [.loopClose] rest) h.unclosed.balanced
        | cons partner stack =>
          unfold go
          rw [show seen.length + 1 = (seen ++ [Instruction.loopClose]).length by simp]
          apply ih (h.close_bracket (by omega))
          simp only [List.length_append, List.length_singleton, Array.size_setIfInBounds]
          omega
    . rw [go_plain hi]
      rw [show seen.length + 1 = (seen ++ [i]).length by simp]
      apply ih (h.plain hi)
      simp only [List.length_append, List.length_singleton]
      omega

theorem matchBrackets_matched (code : List Instruction) : Matched code (matchBrackets code) := by
  unfold matchBrackets
  have := matchBrackets.go_matched (.start code.length) code (by simp)
  rwa [List.nil_append, List.length_nil] at this

theorem exists_scanned_of_balanced {code : List Instruction} (h : Balanced code)
    : ∃ jumps, matchBrackets code = .ok jumps ∧ Scanned code [] jumps := by
  have hmatched := matchBrackets_matched code
  generalize matchBrackets code = result at hmatched
  cases hmatched with
  | ok hscanned => exact ⟨_, rfl, hscanned⟩
  | stray hcode hfront =>
    rw [hcode] at h
    exact absurd hfront h.not_extends_loopClose
  | @unclosed stack position hunclosed hlast =>
    have hdepth := hunclosed.depth_eq
    rw [h.depth_eq_zero] at hdepth
    have hnil : stack = [] := List.eq_nil_of_length_eq_zero (by omega)
    rw [hnil] at hlast
    contradiction

def IsMatched (p : Program) : Prop :=
  Scanned p.code.toList [] p.jumps

theorem parse_eq_ok {source : String} {p : Program} (h : parse source = .ok p)
    : p.code.toList = instructions source ∧ p.IsMatched := by
  unfold parse at h
  dsimp only at h
  have hmatched := matchBrackets_matched (instructions source)
  generalize matchBrackets (instructions source) = result at h hmatched
  cases hmatched with
  | ok hscanned =>
    cases h
    exact ⟨rfl, hscanned⟩
  | stray | unclosed => contradiction

theorem parse_eq_error {source : String} {fault : Fault} (h : parse source = .error fault)
    : ∃ bracket position, fault = .unmatched bracket position := by
  unfold parse at h
  dsimp only at h
  have hmatched := matchBrackets_matched (instructions source)
  generalize matchBrackets (instructions source) = result at h hmatched
  cases hmatched with
  | ok => contradiction
  | stray | unclosed =>
    cases h
    exact ⟨_, _, rfl⟩

theorem exists_parse_eq_ok_iff (source : String)
    : (∃ p, parse source = .ok p) ↔ Balanced (instructions source) := by
  unfold parse
  dsimp only
  constructor
  . intro ⟨p, hp⟩
    have hmatched := matchBrackets_matched (instructions source)
    generalize matchBrackets (instructions source) = result at hp hmatched
    cases hmatched with
    | ok h => exact h.unclosed.balanced
    | stray | unclosed => contradiction
  . intro h
    obtain ⟨jumps, hjumps, _⟩ := exists_scanned_of_balanced h
    rw [hjumps]
    exact ⟨_, rfl⟩

theorem instruction?_eq_getElem? (p : Program) (i : Nat) : p.instruction? i = p.code.toList[i]? := by
  simp [instruction?]

namespace IsMatched

variable {p : Program} {i j : Nat}

theorem jump?_eq_some_iff (h : p.IsMatched)
    : p.jump? i = some j ↔ Partners p.code.toList i j ∨ Partners p.code.toList j i := by
  apply h.jump_iff

theorem jump?_of_partners (h : p.IsMatched) (hij : Partners p.code.toList i j)
    : p.jump? i = some j ∧ p.jump? j = some i := by
  rw [h.jump?_eq_some_iff, h.jump?_eq_some_iff]
  exact ⟨.inl hij, .inr hij⟩

theorem exists_partner_of_loopOpen (h : p.IsMatched) (hi : p.code.toList[i]? = some .loopOpen)
    : ∃ j, Partners p.code.toList i j := by
  apply Scanned.exists_partner h hi

theorem exists_partner_of_loopClose (h : p.IsMatched) (hj : p.code.toList[j]? = some .loopClose)
    : ∃ i, Partners p.code.toList i j := by
  apply h.closing j hj

theorem existsUnique_loopOpen (h : p.IsMatched) (hj : p.code.toList[j]? = some .loopClose)
    : ∃! i, p.code.toList[i]? = some .loopOpen ∧ p.jump? i = some j := by
  obtain ⟨i, hij⟩ := h.exists_partner_of_loopClose hj
  refine ⟨i, ⟨hij.opening, (h.jump?_of_partners hij).1⟩, ?_⟩
  intro k ⟨hk, hjump⟩
  cases h.jump?_eq_some_iff.1 hjump with
  | inl hkj => exact hkj.left_unique hij
  | inr hjk =>
    rw [hjk.closing] at hk
    contradiction

theorem jump?_eq_none (h : p.IsMatched) (hi : ∀ b ∈ p.code.toList[i]?, ¬b.IsBracket)
    : p.jump? i = none := by
  rw [Option.eq_none_iff_forall_ne_some]
  intro j hj
  cases h.jump?_eq_some_iff.1 hj with
  | inl hij => exact hi _ hij.opening (.inl rfl)
  | inr hji => exact hi _ hji.closing (.inr rfl)

end IsMatched

/--
Exactly the balanced programs are accepted. In the table of an accepted one, an opening bracket leads to
the first place where the counts of both brackets meet, which is a closing bracket that leads back; every
closing bracket is reached from exactly one opening bracket; and nothing else is in the table.
-/
theorem parse_matches_brackets (source : String)
    : ((∃ p, parse source = .ok p) ↔ Balanced (instructions source)) ∧
      ∀ p, parse source = .ok p → ∀ i,
        p.instruction? i = (instructions source)[i]? ∧
        ((instructions source)[i]? = some .loopOpen →
          ∃ j, p.jump? i = some j ∧
            IsLeast
              { k | i < k ∧
                (segment (instructions source) i k).count .loopOpen
                  = (segment (instructions source) i k).count .loopClose }
              j ∧
            (instructions source)[j]? = some .loopClose ∧ p.jump? j = some i) ∧
        ((instructions source)[i]? = some .loopClose →
          ∃! k, (instructions source)[k]? = some .loopOpen ∧ p.jump? k = some i) ∧
        ((∀ b ∈ (instructions source)[i]?, ¬b.IsBracket) → p.jump? i = none) := by
  refine ⟨exists_parse_eq_ok_iff source, ?_⟩
  intro p hp i
  obtain ⟨hcode, hmatched⟩ := parse_eq_ok hp
  rw [← hcode]
  refine ⟨p.instruction?_eq_getElem? i, ?_, hmatched.existsUnique_loopOpen, hmatched.jump?_eq_none⟩
  intro hopen
  obtain ⟨j, hij⟩ := hmatched.exists_partner_of_loopOpen hopen
  have hjumps := hmatched.jump?_of_partners hij
  exact ⟨j, hjumps.1, hij.isLeast, hij.closing, hjumps.2⟩

theorem parse_matches_brackets_nested
    : ∃ p, parse "[>[-]<]" = .ok p ∧ p.jump? 1 = none ∧
        ∃ j, p.jump? 0 = some j ∧ p.jump? j = some 0 ∧ (instructions "[>[-]<]")[j]? = some .loopClose := by
  obtain ⟨haccepted, htable⟩ := parse_matches_brackets "[>[-]<]"
  obtain ⟨p, hp⟩ := haccepted.2 (by decide)
  obtain ⟨_, hopen, _, _⟩ := htable p hp 0
  obtain ⟨_, _, _, hother⟩ := htable p hp 1
  obtain ⟨j, hj, _, hclose, hback⟩ := hopen (by decide)
  exact ⟨p, hp, hother (by decide), j, hj, hback, hclose⟩

end Program

end Brainfuck
