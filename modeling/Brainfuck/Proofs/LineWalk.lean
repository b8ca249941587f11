import Brainfuck.Proofs.Lines
import Mathlib.Data.List.Induction

/-!
This module contains how a stream is walked by calls that each take the first character of a line. Where a line
ends is said of the bytes of the stream alone, by counting its newlines. Every call stops at the end of the next
line, whatever the lines before hold and whether their bytes are well-formed or not.
-/

namespace Brainfuck.Text

def Decodes (bytes : Bytes) (cs : List Char) : Prop :=
  cs.flatMap String.utf8EncodeChar = bytes

/--
`EndOfLine stream count stop`: the line with this number, counted from one, stops at this position. That is just
behind its newline, or at the end of the stream where there are not so many newlines. The first line starts where
line number zero would end.
-/
inductive EndOfLine (stream : Bytes) : Nat → Nat → Prop where
  | start : EndOfLine stream 0 0
  | terminated {before after : Bytes} (hstream : stream = before ++ newline :: after)
      : EndOfLine stream (before.count newline + 1) (before.length + 1)
  | last {count : Nat} (hcount : stream.count newline < count) : EndOfLine stream count stream.length

/--
A line that gives no character: it is not there, it is malformed, or it has nothing but carriage returns and
newlines.
-/
def Silent (line : Bytes) : Prop :=
  line = [] ∨ (∀ cs, ¬Decodes line cs) ∨ ∃ cs, Decodes line cs ∧ ∀ c ∈ cs, c = '\r' ∨ c = '\n'

def afterCalls (stream : Bytes) : Nat → Bytes
  | 0 => stream
  | calls + 1 => (readFirstChar (afterCalls stream calls)).2

def positionAfter (stream : Bytes) (calls : Nat) : Nat :=
  stream.length - (afterCalls stream calls).length

def answerAfter (stream : Bytes) (calls : Nat) : Option Char :=
  (readFirstChar (afterCalls stream calls)).1

section Decoding

variable {bytes line : Bytes} {text : String} {cs : List Char} {c : Char}

theorem decode?_eq_some_iff : decode? bytes = some text ↔ Decodes bytes text.toList := by
  have hbytes : text.toByteArray = ⟨bytes.toArray⟩ ↔ Decodes bytes text.toList := by
    rw [← String.utf8Encode_toList, List.utf8Encode, ByteArray.ext_iff, List.data_toByteArray, Decodes]
    exact ⟨List.toArray_inj, congrArg List.toArray⟩
  rw [← hbytes]
  unfold decode? String.fromUTF8?
  constructor
  . intro h
    split at h
    . cases h
      rfl
    . contradiction
  . intro h
    rw [dif_pos (h ▸ text.isValidUTF8), Option.some.injEq, ← String.toByteArray_inj]
    exact h.symm

theorem decode?_eq_none_iff : decode? bytes = none ↔ ∀ cs, ¬Decodes bytes cs := by
  rw [Option.eq_none_iff_forall_ne_some]
  constructor
  . intro h cs hcs
    exact h (.ofList cs) (decode?_eq_some_iff.mpr (by rwa [String.toList_ofList]))
  . intro h text htext
    exact h text.toList (decode?_eq_some_iff.mp htext)

theorem Decodes.unique (h : Decodes line cs) (htext : decode? line = some text) : cs = text.toList := by
  have hcs : decode? line = some (.ofList cs) := by rwa [decode?_eq_some_iff, String.toList_ofList]
  rw [htext, Option.some.injEq] at hcs
  rw [hcs, String.toList_ofList]

/--
The ends of a line are taken off at its back only: a carriage return in front stays if anything else follows.
-/
theorem firstChar?_cases (text : String)
    : ((∀ c ∈ text.toList, c = '\r' ∨ c = '\n') ∧ firstChar? text = none) ∨
      (¬(∀ c ∈ text.toList, c = '\r' ∨ c = '\n') ∧ ∃ c cs, text.toList = c :: cs ∧ firstChar? text = some c) := by
  obtain ⟨body, trailing, htext, hbody, htrailing, hfirst⟩ := exists_body_firstChar? text
  rw [htext, hfirst]
  cases body using List.reverseRecOn with
  | nil => exact .inl ⟨by simpa using htrailing, rfl⟩
  | append_singleton body last =>
    obtain ⟨hreturn, hnewline⟩ := hbody last List.getLast?_concat
    have hends : ¬∀ c ∈ body ++ [last] ++ trailing, c = '\r' ∨ c = '\n' := by
      intro hall
      obtain heq | heq := hall last (by simp)
      . exact hreturn heq
      . exact hnewline heq
    obtain ⟨c, cs, hcons⟩ := List.exists_cons_of_ne_nil (List.concat_ne_nil last body)
    rw [hcons] at hends ⊢
    exact .inr ⟨hends, c, cs ++ trailing, rfl, rfl⟩

theorem silent_of_decode?_eq_none (h : decode? line = none) : Silent line :=
  .inr (.inl (decode?_eq_none_iff.mp h))

theorem silent_iff_of_decode? (h : decode? line = some text)
    : Silent line ↔ ∀ c ∈ text.toList, c = '\r' ∨ c = '\n' := by
  have htext := decode?_eq_some_iff.mp h
  constructor
  . rintro (rfl | hmalformed | ⟨cs, hcs, hends⟩)
    . have hempty : Decodes [] [] := rfl
      rw [← hempty.unique h]
      simp
    . exact absurd htext (hmalformed text.toList)
    . rwa [← hcs.unique h]
  . intro hends
    exact .inr (.inr ⟨text.toList, htext, hends⟩)

theorem lineChar?_eq_none_iff : lineChar? line = none ↔ Silent line := by
  unfold lineChar?
  cases h : decode? line with
  | none => simp [silent_of_decode?_eq_none h]
  | some text =>
    rw [Option.bind_some, silent_iff_of_decode? h]
    obtain ⟨hends, hfirst⟩ | ⟨hends, c, cs, _, hfirst⟩ := firstChar?_cases text
    . exact ⟨fun _ => hends, fun _ => hfirst⟩
    . simp [hfirst, hends]

theorem lineChar?_eq_some_iff : lineChar? line = some c ↔ ¬Silent line ∧ ∃ cs, Decodes line (c :: cs) := by
  rw [← lineChar?_eq_none_iff]
  unfold lineChar?
  cases h : decode? line with
  | none => simp
  | some text =>
    rw [Option.bind_some]
    obtain ⟨_, hfirst⟩ | ⟨_, first, cs, htext, hfirst⟩ := firstChar?_cases text
    . simp [hfirst]
    . rw [hfirst, Option.some.injEq]
      constructor
      . rintro rfl
        exact ⟨Option.some_ne_none first, cs, htext ▸ decode?_eq_some_iff.mp h⟩
      . intro ⟨_, others, hothers⟩
        have hsame := hothers.unique h
        rw [htext] at hsame
        exact (List.cons.inj hsame).1.symm

end Decoding

section Walking

variable {stream front rest : Bytes} {count p q : Nat}

theorem splitLine_cases (rest : Bytes)
    : (newline ∉ rest ∧ splitLine rest = (rest, [])) ∨
      ∃ body after, rest = body ++ newline :: after ∧ newline ∉ body ∧ splitLine rest = (body ++ [newline], after) := by
  induction rest with
  | nil => exact .inl ⟨List.not_mem_nil, rfl⟩
  | cons b rest ih =>
    by_cases hb : b = newline
    . subst hb
      exact .inr ⟨[], rest, rfl, List.not_mem_nil, splitLine_cons_newline rest⟩
    . rw [splitLine_cons_of_ne hb]
      obtain ⟨hnone, hsplit⟩ | ⟨body, after, hrest, hbody, hsplit⟩ := ih
      . exact .inl ⟨by simp [Ne.symm hb, hnone], by rw [hsplit]⟩
      . refine .inr ⟨b :: body, after, by rw [hrest, List.cons_append], by simp [Ne.symm hb, hbody], ?_⟩
        rw [hsplit, List.cons_append]

theorem EndOfLine.count_front (h : EndOfLine (front ++ rest) count front.length)
    : front.count newline = count ∨ (rest = [] ∧ front.count newline < count) := by
  generalize hstream : front ++ rest = stream at h
  generalize hstop : front.length = stop at h
  cases h with
  | start =>
    obtain rfl := List.length_eq_zero_iff.mp hstop
    exact .inl List.count_nil
  | @terminated before after hsplit =>
    have hlength : front.length = (before ++ [newline]).length := by simpa using hstop
    have hsame : front ++ rest = before ++ [newline] ++ after := by
      rw [hstream, hsplit, List.append_assoc, List.singleton_append]
    rw [List.append_inj_left hsame hlength]
    exact .inl (by simp)
  | last hcount =>
    have hrest : rest = [] := by
      rw [← hstream, List.length_append] at hstop
      exact List.length_eq_zero_iff.mp (by omega)
    rw [← hstream, hrest, List.append_nil] at hcount
    exact .inr ⟨hrest, hcount⟩

theorem EndOfLine.next (h : EndOfLine (front ++ rest) count front.length)
    : EndOfLine (front ++ rest) (count + 1) (front ++ (splitLine rest).1).length := by
  obtain ⟨hnone, hsplit⟩ | ⟨body, after, rfl, hbody, hsplit⟩ := splitLine_cases rest
  . rw [hsplit]
    apply EndOfLine.last
    rw [List.count_append, List.count_eq_zero.mpr hnone]
    obtain hcount | ⟨_, hcount⟩ := h.count_front
    . omega
    . omega
  . have hcount : (front ++ body).count newline = count := by
      rw [List.count_append, List.count_eq_zero.mpr hbody]
      obtain hcount | ⟨hempty, _⟩ := h.count_front
      . exact hcount
      . simp at hempty
    have hstream : front ++ (body ++ newline :: after) = front ++ body ++ newline :: after :=
      (List.append_assoc _ _ _).symm
    have hstop := EndOfLine.terminated hstream
    rw [hcount] at hstop
    simpa [hsplit, Nat.add_assoc] using hstop

theorem length_le_of_count_le {before after other rest : Bytes}
    (h : other ++ newline :: rest = before ++ newline :: after)
    (hcount : other.count newline ≤ before.count newline) : other.length ≤ before.length := by
  by_contra hlt
  have hbefore : before ++ [newline] <+: before ++ newline :: after := ⟨after, by simp⟩
  have hother : other <+: before ++ newline :: after := ⟨newline :: rest, h⟩
  have hlength : (before ++ [newline]).length ≤ other.length := by
    rw [List.length_append, List.length_singleton]
    omega
  have hfront := (List.prefix_of_prefix_length_le hbefore hother hlength).sublist.count_le newline
  rw [List.count_append, List.count_singleton_self] at hfront
  omega

theorem EndOfLine.unique (hp : EndOfLine stream count p) (hq : EndOfLine stream count q) : p = q := by
  have hlast : ∀ {before after : Bytes}, stream = before ++ newline :: after →
      ¬stream.count newline < before.count newline + 1 := by
    rintro before after rfl
    rw [List.count_append, List.count_cons_self]
    omega
  generalize hnumber : count = number at hq
  cases hp with
  | start =>
    cases hq with
    | start => rfl
    | terminated => contradiction
    | last hcount => omega
  | terminated hp =>
    cases hq with
    | start => contradiction
    | terminated hq =>
      apply congrArg (· + 1)
      apply Nat.le_antisymm
      . exact length_le_of_count_le (hp.symm.trans hq) (by omega)
      . exact length_le_of_count_le (hq.symm.trans hp) (by omega)
    | last hcount => exact absurd (hnumber ▸ hcount) (hlast hp)
  | last hcount =>
    cases hq with
    | start => omega
    | terminated hq => exact absurd (hnumber ▸ hcount) (hlast hq)
    | last => rfl

theorem readFirstChar_eq (rest : Bytes)
    : readFirstChar rest = (lineChar? (splitLine rest).1, (splitLine rest).2) := by
  have hempty : lineChar? [] = none := lineChar?_eq_none_iff.mpr (.inl rfl)
  unfold readFirstChar lineChar?
  rw [readLine_eq]
  by_cases h : (splitLine rest).1 = []
  . rw [h]
    exact congrArg (·, (splitLine rest).2) hempty.symm
  . simp only [if_neg h]

theorem afterCalls_succ (stream : Bytes) (calls : Nat)
    : afterCalls stream (calls + 1) = (splitLine (afterCalls stream calls)).2 := by
  rw [afterCalls, readFirstChar_eq]

theorem exists_front (stream : Bytes) (calls : Nat)
    : ∃ front, stream = front ++ afterCalls stream calls ∧ EndOfLine stream calls front.length := by
  induction calls with
  | zero => exact ⟨[], rfl, .start⟩
  | succ calls ih =>
    obtain ⟨front, hstream, hend⟩ := ih
    refine ⟨front ++ (splitLine (afterCalls stream calls)).1, ?_, ?_⟩
    . rw [afterCalls_succ, List.append_assoc, splitLine_append, ← hstream]
    . generalize afterCalls stream calls = rest at hstream
      subst hstream
      exact hend.next

theorem afterCalls_eq_drop (stream : Bytes) (calls : Nat)
    : afterCalls stream calls = stream.drop (positionAfter stream calls) ∧
      EndOfLine stream calls (positionAfter stream calls) := by
  obtain ⟨front, hstream, hend⟩ := exists_front stream calls
  have hposition : positionAfter stream calls = front.length := by
    have hlength := congrArg List.length hstream
    rw [List.length_append] at hlength
    unfold positionAfter
    omega
  have hdrop := congrArg (List.drop front.length) hstream
  rw [List.drop_left] at hdrop
  rw [hposition]
  exact ⟨hdrop.symm, hend⟩

theorem splitLine_afterCalls (stream : Bytes) (calls : Nat)
    : (splitLine (afterCalls stream calls)).1
        =
      (stream.take (positionAfter stream (calls + 1))).drop (positionAfter stream calls) := by
  obtain ⟨hdrop, _⟩ := afterCalls_eq_drop stream calls
  have happend := splitLine_append (afterCalls stream calls)
  rw [← afterCalls_succ] at happend
  generalize (splitLine (afterCalls stream calls)).1 = line at happend ⊢
  have hlength : positionAfter stream (calls + 1) - positionAfter stream calls = line.length := by
    have hafter := congrArg List.length happend
    have hstream := congrArg List.length hdrop
    rw [List.length_append] at hafter
    rw [List.length_drop] at hstream
    unfold positionAfter at hstream ⊢
    omega
  rw [List.drop_take, ← hdrop, hlength, ← happend, List.take_left]

/--
Calls walk a stream line by line. For every stream and every number of calls, the calls have read up to the end of
the line with this number, and the stream holds what comes behind it. The next call stops at the end of the next
line. It returns no character exactly if there is no such line, its bytes are malformed, or it has nothing but
carriage returns and newlines, and else it returns the first character of the line.
-/
theorem calls_walk_line_by_line (stream : Bytes) (calls : Nat)
    : let start := positionAfter stream calls
      let stop := positionAfter stream (calls + 1)
      let line := (stream.take stop).drop start
      (∀ p, EndOfLine stream calls p ↔ p = start) ∧ (∀ p, EndOfLine stream (calls + 1) p ↔ p = stop) ∧
        afterCalls stream calls = stream.drop start ∧
        (answerAfter stream calls = none ↔ Silent line) ∧
        ∀ c, answerAfter stream calls = some c ↔ ¬Silent line ∧ ∃ cs, Decodes line (c :: cs) := by
  intro start stop line
  have hend : ∀ calls p, EndOfLine stream calls p ↔ p = positionAfter stream calls := by
    intro calls p
    constructor
    . intro h
      exact h.unique (afterCalls_eq_drop stream calls).2
    . rintro rfl
      exact (afterCalls_eq_drop stream calls).2
  have hanswer : answerAfter stream calls = lineChar? line := by
    rw [answerAfter, readFirstChar_eq, splitLine_afterCalls]
  refine ⟨hend calls, hend (calls + 1), (afterCalls_eq_drop stream calls).1, ?_, fun c => ?_⟩
  . rw [hanswer, lineChar?_eq_none_iff]
  . rw [hanswer, lineChar?_eq_some_iff]

-- A malformed line is passed over, and a carriage return counts only where something else follows it.
example : [0, 1, 2, 3].map (answerAfter [0xff, 10, 13, 97, 10, 13, 13, 10]) = [none, some '\r', none, none] := by
  decide +kernel

end Walking

end Brainfuck.Text
