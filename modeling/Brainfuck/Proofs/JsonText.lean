import Brainfuck.JsonValue
import Brainfuck.Proofs.JsonReader

/-!
This module contains the proof that the text of a JSON value is read back as this value, whatever its numbers,
texts, nesting and order of members are.
-/

namespace Brainfuck.JsonValue

open Json

mutual

def meaning : JsonValue → Json
  | .number value => .number value 0
  | .text value => .text value
  | .list items => .list (meanings items)
  | .object members => .object (memberMeanings members)

def meanings : List JsonValue → List Json
  | [] => []
  | item :: items => meaning item :: meanings items

def memberMeanings : List (String × JsonValue) → List (String × Json)
  | [] => []
  | (name, value) :: members => (name, meaning value) :: memberMeanings members

end

theorem meanings_eq_map (items : List JsonValue) : meanings items = items.map meaning := by
  induction items with
  | nil => rfl
  | cons item items ih => rw [meanings, ih, List.map_cons]

section Blanks

variable {s tail rest blanks : List Char} {token : Char}

theorem exists_skipBlanks (hs : s.dropWhile isBlank = tail) : ∃ h, skipBlanks s = ⟨tail, h⟩ := by
  subst hs
  exact ⟨_, rfl⟩

theorem dropWhile_blanks (hblanks : ∀ c ∈ blanks, isBlank c) (htoken : isBlank token = false)
    : (blanks ++ token :: rest).dropWhile isBlank = token :: rest := by
  rw [List.dropWhile_append_of_pos hblanks, List.dropWhile_cons_of_neg (by simp [htoken])]

theorem exists_readToken (hs : s.dropWhile isBlank = token :: rest) : ∃ h, readToken token s = some ⟨rest, h⟩ := by
  obtain ⟨h, hskip⟩ := exists_skipBlanks hs
  rw [readToken, hskip]
  exact ⟨h, if_pos rfl⟩

theorem readToken_eq_none {c : Char} (hs : s.dropWhile isBlank = c :: rest) (hc : c ≠ token)
    : readToken token s = none := by
  obtain ⟨h, hskip⟩ := exists_skipBlanks hs
  rw [readToken, hskip]
  exact if_neg hc

end Blanks

section Numbers

def EndsNumber (rest : List Char) : Prop :=
  ∀ c ∈ rest.head?, c.isDigit = false ∧ c ≠ '.' ∧ c ≠ 'e' ∧ c ≠ 'E'

variable {rest : List Char}

theorem EndsNumber.readFraction (hrest : EndsNumber rest) : ∃ h, readFraction rest = some ([], ⟨rest, h⟩) := by
  unfold Json.readFraction
  split
  . exact absurd rfl (hrest '.' rfl).2.1
  . exact ⟨Nat.le_refl _, rfl⟩

theorem EndsNumber.readExponent (hrest : EndsNumber rest) : ∃ h, readExponent rest = some (0, ⟨rest, h⟩) := by
  unfold Json.readExponent
  split
  . exact absurd rfl (hrest 'e' rfl).2.2.1
  . exact absurd rfl (hrest 'E' rfl).2.2.2
  . exact ⟨Nat.le_refl _, rfl⟩

theorem head?_toDigits_ne_zero {n : Nat} (hn : 0 < n) : (Nat.toDigits 10 n).head? ≠ some '0' := by
  induction n using Nat.strongRecOn with
  | ind n ih =>
    rw [Nat.toDigits_eq_if (by decide)]
    split
    . rename_i hlt
      have hdigit : ∀ d < 10, 0 < d → d.digitChar ≠ '0' := by decide
      simpa using hdigit n hlt hn
    . have hpos : 0 < n / 10 := by omega
      obtain ⟨c, cs, hdigits⟩ := List.exists_cons_of_ne_nil (Nat.toDigits_ne_nil (n := n / 10) (b := 10))
      have hfirst := ih (n / 10) (by omega) hpos
      rw [hdigits] at hfirst ⊢
      simpa using hfirst

theorem exists_readDigits {digits : List Char} (hne : digits ≠ []) (hdigits : ∀ c ∈ digits, c.isDigit)
    (hrest : EndsNumber rest)
    : ∃ h, readDigits (digits ++ rest) = some (digits, ⟨rest, h⟩) := by
  cases digits with
  | nil => contradiction
  | cons c cs =>
    obtain ⟨hc, hcs⟩ := List.forall_mem_cons.mp hdigits
    have hstop : rest.takeWhile Char.isDigit = [] ∧ rest.dropWhile Char.isDigit = rest := by
      cases rest with
      | nil => exact ⟨rfl, rfl⟩
      | cons d rest => simp [(hrest d rfl).1]
    refine ⟨by simp only [List.cons_append, List.length_cons, List.length_append]; omega, ?_⟩
    simp [readDigits, hc, List.takeWhile_append_of_pos hcs, List.dropWhile_append_of_pos hcs, hstop]

theorem exists_readUnsigned (n : Nat) (hrest : EndsNumber rest)
    : ∃ h, readUnsigned (Nat.toDigits 10 n ++ rest) = some ((n, 0), ⟨rest, h⟩) := by
  have hdigits : ∀ c ∈ Nat.toDigits 10 n, c.isDigit := fun c hc =>
    Nat.isDigit_of_mem_toDigits (by decide) (by decide) hc
  have hwhole : Nat.toDigits 10 n = ['0'] ∨ (Nat.toDigits 10 n).head? ≠ some '0' := by
    obtain rfl | hn := Nat.eq_zero_or_pos n
    . exact .inl rfl
    . exact .inr (head?_toDigits_ne_zero hn)
  obtain ⟨_, hread⟩ := exists_readDigits Nat.toDigits_ne_nil hdigits hrest
  obtain ⟨_, hfraction⟩ := hrest.readFraction
  obtain ⟨_, hexponent⟩ := hrest.readExponent
  refine ⟨by simp [Nat.length_toDigits_pos], ?_⟩
  simp [readUnsigned, hread, hwhole, hfraction, hexponent, guard]

end Numbers

section Strings

theorem escape_cases (c : Char)
    : (∃ e, e ≠ 'u' ∧ shortEscape? e = some c ∧ (escape c).toList = ['\\', e]) ∨
      (c.toNat < 0x20 ∧
        (escape c).toList
          =
        ['\\', 'u', '0', '0', Nat.digitChar (c.toNat / 16), Nat.digitChar (c.toNat % 16)]) ∨
      (0x20 ≤ c.toNat ∧ c ≠ '"' ∧ c ≠ '\\' ∧ (escape c).toList = [c]) := by
  unfold escape
  split
  . exact .inl ⟨'"', by decide, rfl, by simp⟩
  . exact .inl ⟨'\\', by decide, rfl, by simp⟩
  . exact .inl ⟨'n', by decide, rfl, by simp⟩
  . exact .inl ⟨'r', by decide, rfl, by simp⟩
  . exact .inl ⟨'t', by decide, rfl, by simp⟩
  . exact .inl ⟨'b', by decide, rfl, by simp⟩
  . exact .inl ⟨'f', by decide, rfl, by simp⟩
  . rename_i hquote hbackslash _ _ _ _ _
    split
    . rename_i hcontrol
      refine .inr (.inl ⟨hcontrol, ?_⟩)
      have hdigits : ∀ n < 0x20, (if n < 0x10 then ['0'] else []) ++ Nat.toDigits 16 n
          = [Nat.digitChar (n / 16), Nat.digitChar (n % 16)] := by decide
      have hzero : (if c.toNat < 0x10 then "0" else "").toList = if c.toNat < 0x10 then ['0'] else [] := by
        split <;> rfl
      have hcode : (Text.hexadecimal c.toNat).toList = Nat.toDigits 16 c.toNat := String.toList_ofList
      rw [String.toList_append, String.toList_append, hzero, hcode, List.append_assoc, hdigits c.toNat hcontrol]
      rfl
    . rename_i hplain
      exact .inr (.inr ⟨by omega, hquote, hbackslash, by simp⟩)

variable {s rest cs : List Char} {c : Char}

theorem exists_readEscape_short {e : Char} (he : e ≠ 'u') (hc : shortEscape? e = some c)
    : ∃ h, readEscape (e :: s) = some (c, ⟨s, h⟩) := by
  simp [readEscape, he, hc]

theorem hexDigit?_digitChar {d : Nat} (hd : d < 16) : hexDigit? d.digitChar = some d := by
  revert d
  decide

theorem exists_readEscape_code (hc : c.toNat < 0x20)
    : ∃ h, readEscape ('u' :: '0' :: '0' :: Nat.digitChar (c.toNat / 16) :: Nat.digitChar (c.toNat % 16) :: s)
        = some (c, ⟨s, h⟩) := by
  have hzero : hexDigit? '0' = some 0 := rfl
  have hhigh := hexDigit?_digitChar (d := c.toNat / 16) (by omega)
  have hlow := hexDigit?_digitChar (d := c.toNat % 16) (by omega)
  have hunit : 16 * (c.toNat / 16) + c.toNat % 16 = c.toNat := by omega
  have hplain : isHighSurrogate c.toNat = false ∧ isLowSurrogate c.toNat = false := by
    simp only [isHighSurrogate, isLowSurrogate, Bool.and_eq_false_iff, decide_eq_false_iff_not]
    omega
  refine ⟨by simp only [List.length_cons]; omega, ?_⟩
  simp [readEscape, readUnits, readUnit, hzero, hhigh, hlow, hunit, hplain, guard]

theorem exists_readString_escape (hs : ∃ h, readString s = some (cs, ⟨rest, h⟩))
    : ∃ h, readString ((escape c).toList ++ s) = some (c :: cs, ⟨rest, h⟩) := by
  obtain ⟨hlt, hs⟩ := hs
  obtain ⟨e, he, hshort, hescape⟩ | ⟨hcontrol, hescape⟩ | ⟨hplain, hquote, hbackslash, hescape⟩ := escape_cases c
  . obtain ⟨_, hread⟩ := exists_readEscape_short (s := s) he hshort
    rw [hescape]
    refine ⟨by simp; omega, ?_⟩
    simp [readString, hread, hs]
  . obtain ⟨_, hread⟩ := exists_readEscape_code (s := s) hcontrol
    rw [hescape]
    refine ⟨by simp; omega, ?_⟩
    simp [readString, hread, hs]
  . rw [hescape]
    refine ⟨by simp; omega, ?_⟩
    simp [readString, hquote, hbackslash, Nat.not_lt.mpr hplain, hs]

theorem exists_readString (cs rest : List Char)
    : ∃ h, readString (cs.flatMap (fun c => (escape c).toList) ++ '"' :: rest) = some (cs, ⟨rest, h⟩) := by
  induction cs with
  | nil =>
    rw [List.flatMap_nil, List.nil_append]
    refine ⟨Nat.lt_succ_self _, ?_⟩
    rw [readString, if_pos rfl]
  | cons c cs ih =>
    rw [List.flatMap_cons, List.append_assoc]
    exact exists_readString_escape ih

theorem toList_quoted (text : String)
    : (quoted text).toList = '"' :: (text.toList.flatMap (fun c => (escape c).toList) ++ ['"']) := by
  have hfold : ∀ (cs : List Char) (written : String),
      (cs.foldl (fun written c => written ++ escape c) written).toList
        = written.toList ++ cs.flatMap (fun c => (escape c).toList) := by
    intro cs
    induction cs with
    | nil => simp
    | cons c cs ih => simp [ih]
  simp [quoted, String.foldl_eq_foldl_toList, hfold]

end Strings

section Values

mutual

def spelled (depth : Nat) : JsonValue → List Char
  | .number value => Nat.toDigits 10 value
  | .text value => (quoted value).toList
  | .list [] => ['[', ']']
  | .list (item :: items) =>
    '[' :: ((lineStart (depth + 1)).toList ++ spelled (depth + 1) item ++ spelledItems (depth + 1) items ++
      (lineStart depth).toList ++ [']'])
  | .object [] => ['\x7b', '\x7d']
  | .object ((name, value) :: members) =>
    '\x7b' :: ((lineStart (depth + 1)).toList ++ (quoted name).toList ++ ':' :: ' ' :: spelled (depth + 1) value ++
      spelledMembers (depth + 1) members ++ (lineStart depth).toList ++ ['\x7d'])

def spelledItems (depth : Nat) : List JsonValue → List Char
  | [] => []
  | item :: items => ',' :: ((lineStart depth).toList ++ spelled depth item ++ spelledItems depth items)

def spelledMembers (depth : Nat) : List (String × JsonValue) → List Char
  | [] => []
  | (name, value) :: members =>
    ',' :: ((lineStart depth).toList ++ (quoted name).toList ++ ':' :: ' ' :: spelled depth value ++
      spelledMembers depth members)

end

mutual

theorem toList_write (depth : Nat) (written : String)
    : ∀ value : JsonValue, (write depth written value).toList = written.toList ++ spelled depth value
  | .number value => by simp [write, spelled, Nat.repr_eq_ofList_toDigits]
  | .text value => by simp [write, spelled]
  | .list [] => by simp [write, spelled]
  | .list (item :: items) => by simp [write, spelled, toList_writeItems, toList_write]
  | .object [] => by simp [write, spelled]
  | .object ((name, value) :: members) => by simp [write, spelled, toList_writeMembers, toList_write]

theorem toList_writeItems (depth : Nat) (written : String)
    : ∀ items : List JsonValue,
        (writeItems depth written items).toList = written.toList ++ spelledItems depth items
  | [] => by simp [writeItems, spelledItems]
  | item :: items => by simp [writeItems, spelledItems, toList_writeItems, toList_write]

theorem toList_writeMembers (depth : Nat) (written : String)
    : ∀ members : List (String × JsonValue),
        (writeMembers depth written members).toList = written.toList ++ spelledMembers depth members
  | [] => by simp [writeMembers, spelledMembers]
  | (name, value) :: members => by simp [writeMembers, spelledMembers, toList_writeMembers, toList_write]

end

theorem toList_lineStart (depth : Nat) : (lineStart depth).toList = '\n' :: .replicate (4 * depth) ' ' := by
  simp [lineStart, Text.blanks]

theorem isBlank_lineStart (depth : Nat) : ∀ c ∈ (lineStart depth).toList, isBlank c := by
  intro c hc
  rw [toList_lineStart, List.mem_cons, List.mem_replicate] at hc
  obtain rfl | ⟨_, rfl⟩ := hc
  . rfl
  . rfl

def StartsValue (c : Char) : Prop :=
  isBlank c = false ∧ c ≠ ']'

theorem startsValue_of_isDigit {c : Char} (hc : c.isDigit) : StartsValue c := by
  constructor
  . simp only [isBlank, Bool.or_eq_false_iff, decide_eq_false_iff_not]
    refine ⟨⟨⟨?_, ?_⟩, ?_⟩, ?_⟩
    all_goals rintro rfl; contradiction
  . rintro rfl
    contradiction

theorem exists_spelled_eq_cons (depth : Nat) (value : JsonValue)
    : ∃ c cs, spelled depth value = c :: cs ∧ StartsValue c := by
  cases value with
  | number value =>
    obtain ⟨c, cs, hdigits⟩ := List.exists_cons_of_ne_nil (Nat.toDigits_ne_nil (n := value) (b := 10))
    have hmem : c ∈ Nat.toDigits 10 value := hdigits ▸ List.mem_cons_self
    refine ⟨c, cs, by rw [spelled, hdigits], startsValue_of_isDigit ?_⟩
    exact Nat.isDigit_of_mem_toDigits (by decide) (by decide) hmem
  | text value => exact ⟨'"', _, by rw [spelled, toList_quoted], by decide, by decide⟩
  | list items => cases items <;> exact ⟨'[', _, by rw [spelled], by decide, by decide⟩
  | object members => cases members <;> exact ⟨'\x7b', _, by rw [spelled], by decide, by decide⟩

variable {s rest blanks : List Char}

theorem dropWhile_spelled (hblanks : ∀ c ∈ blanks, isBlank c) (depth : Nat) (value : JsonValue)
    : (blanks ++ (spelled depth value ++ rest)).dropWhile isBlank = spelled depth value ++ rest := by
  obtain ⟨c, cs, hspelled, hc, _⟩ := exists_spelled_eq_cons depth value
  rw [hspelled]
  exact dropWhile_blanks hblanks hc

theorem exists_readValue_number (value : Nat) (hs : s.dropWhile isBlank = Nat.toDigits 10 value ++ rest)
    (hrest : EndsNumber rest)
    : ∃ h, readValue s = some (.number value 0, ⟨rest, h⟩) := by
  have hunsigned := exists_readUnsigned value hrest
  obtain ⟨c, cs, hdigits⟩ := List.exists_cons_of_ne_nil (Nat.toDigits_ne_nil (n := value) (b := 10))
  have hmem : c ∈ Nat.toDigits 10 value := hdigits ▸ List.mem_cons_self
  have hc : c.isDigit := Nat.isDigit_of_mem_toDigits (by decide) (by decide) hmem
  rw [hdigits, List.cons_append] at hs hunsigned
  obtain ⟨h, hskip⟩ := exists_skipBlanks hs
  obtain ⟨hlt, hread⟩ := hunsigned
  refine ⟨by omega, ?_⟩
  rw [readValue, hskip]
  dsimp only
  -- A digit starts none of the other kinds of values, and it is no sign.
  split
  . contradiction
  . contradiction
  . contradiction
  . contradiction
  . contradiction
  . contradiction
  . rw [readNumber]
    . simp [hread]
    . rintro _ ⟨⟩
      contradiction

theorem exists_readValue_text (value : String) (hs : s.dropWhile isBlank = (quoted value).toList ++ rest)
    : ∃ h, readValue s = some (.text value, ⟨rest, h⟩) := by
  rw [toList_quoted, List.cons_append, List.append_assoc, List.singleton_append] at hs
  obtain ⟨h, hskip⟩ := exists_skipBlanks hs
  obtain ⟨hlt, hread⟩ := exists_readString value.toList rest
  refine ⟨Nat.lt_trans hlt h, ?_⟩
  simp [readValue, hskip, hread]

theorem exists_readValue_nil (hs : s.dropWhile isBlank = '[' :: ']' :: rest)
    : ∃ h, readValue s = some (.list [], ⟨rest, h⟩) := by
  obtain ⟨h, hskip⟩ := exists_skipBlanks hs
  have hdrop : (']' :: rest).dropWhile isBlank = ']' :: rest := rfl
  obtain ⟨hlt, hclose⟩ := exists_readToken hdrop
  refine ⟨Nat.lt_trans hlt h, ?_⟩
  simp [readValue, hskip, hclose]

theorem exists_readValue_empty (hs : s.dropWhile isBlank = '\x7b' :: '\x7d' :: rest)
    : ∃ h, readValue s = some (.object [], ⟨rest, h⟩) := by
  obtain ⟨h, hskip⟩ := exists_skipBlanks hs
  have hdrop : ('\x7d' :: rest).dropWhile isBlank = '\x7d' :: rest := rfl
  obtain ⟨hlt, hclose⟩ := exists_readToken hdrop
  refine ⟨Nat.lt_trans hlt h, ?_⟩
  simp [readValue, hskip, hclose]

section Steps

-- What reading a compound comes down to: reading its first part, then the others behind it.

variable {tail middle : List Char} {c : Char} {name : String} {value item : Json} {items : List Json}
  {member : String × Json} {members : List (String × Json)}

theorem exists_readMember (hs : s.dropWhile isBlank = (quoted name).toList ++ ':' :: tail)
    (hvalue : ∃ h, readValue tail = some (value, ⟨rest, h⟩))
    : ∃ h, readMember s = some ((name, value), ⟨rest, h⟩) := by
  rw [toList_quoted, List.cons_append, List.append_assoc, List.singleton_append] at hs
  obtain ⟨hopen, htoken⟩ := exists_readToken hs
  obtain ⟨hname, hread⟩ := exists_readString name.toList (':' :: tail)
  have hdrop : (':' :: tail).dropWhile isBlank = ':' :: tail := rfl
  obtain ⟨hcolon, hseparator⟩ := exists_readToken hdrop
  obtain ⟨hlt, hvalue⟩ := hvalue
  refine ⟨by omega, ?_⟩
  simp [readMember, htoken, hread, hseparator, hvalue]

theorem exists_readValue_list (hs : s.dropWhile isBlank = '[' :: tail) (hopen : readToken ']' tail = none)
    (hitem : ∃ h, readValue tail = some (item, ⟨middle, h⟩))
    (hitems : ∃ h, readItems middle = some (items, ⟨rest, h⟩))
    : ∃ h, readValue s = some (.list (item :: items), ⟨rest, h⟩) := by
  obtain ⟨h, hskip⟩ := exists_skipBlanks hs
  obtain ⟨hmiddle, hitem⟩ := hitem
  obtain ⟨hrest, hitems⟩ := hitems
  refine ⟨Nat.lt_trans (Nat.lt_trans hrest hmiddle) h, ?_⟩
  simp [readValue, hskip, hopen, hitem, hitems]

theorem exists_readValue_object (hs : s.dropWhile isBlank = '\x7b' :: tail)
    (hopen : readToken '\x7d' tail = none)
    (hmember : ∃ h, readMember tail = some (member, ⟨middle, h⟩))
    (hmembers : ∃ h, readMembers middle = some (members, ⟨rest, h⟩))
    : ∃ h, readValue s = some (.object (member :: members), ⟨rest, h⟩) := by
  obtain ⟨h, hskip⟩ := exists_skipBlanks hs
  obtain ⟨hmiddle, hmember⟩ := hmember
  obtain ⟨hrest, hmembers⟩ := hmembers
  refine ⟨Nat.lt_trans (Nat.lt_trans hrest hmiddle) h, ?_⟩
  simp [readValue, hskip, hopen, hmember, hmembers]

theorem exists_readItems_nil (hs : s.dropWhile isBlank = ']' :: rest)
    : ∃ h, readItems s = some ([], ⟨rest, h⟩) := by
  obtain ⟨h, hclose⟩ := exists_readToken hs
  exact ⟨h, by rw [readItems, hclose]⟩

theorem exists_readItems_cons (hs : s.dropWhile isBlank = ',' :: tail)
    (hitem : ∃ h, readValue tail = some (item, ⟨middle, h⟩))
    (hitems : ∃ h, readItems middle = some (items, ⟨rest, h⟩))
    : ∃ h, readItems s = some (item :: items, ⟨rest, h⟩) := by
  have hopen : readToken ']' s = none := readToken_eq_none hs (by decide)
  obtain ⟨h, hcomma⟩ := exists_readToken hs
  obtain ⟨hmiddle, hitem⟩ := hitem
  obtain ⟨hrest, hitems⟩ := hitems
  refine ⟨Nat.lt_trans (Nat.lt_trans hrest hmiddle) h, ?_⟩
  rw [readItems, hopen, hcomma]
  simp [hitem, hitems]

theorem exists_readMembers_nil (hs : s.dropWhile isBlank = '\x7d' :: rest)
    : ∃ h, readMembers s = some ([], ⟨rest, h⟩) := by
  obtain ⟨h, hclose⟩ := exists_readToken hs
  exact ⟨h, by rw [readMembers, hclose]⟩

theorem exists_readMembers_cons (hs : s.dropWhile isBlank = ',' :: tail)
    (hmember : ∃ h, readMember tail = some (member, ⟨middle, h⟩))
    (hmembers : ∃ h, readMembers middle = some (members, ⟨rest, h⟩))
    : ∃ h, readMembers s = some (member :: members, ⟨rest, h⟩) := by
  have hopen : readToken '\x7d' s = none := readToken_eq_none hs (by decide)
  obtain ⟨h, hcomma⟩ := exists_readToken hs
  obtain ⟨hmiddle, hmember⟩ := hmember
  obtain ⟨hrest, hmembers⟩ := hmembers
  refine ⟨Nat.lt_trans (Nat.lt_trans hrest hmiddle) h, ?_⟩
  rw [readMembers, hopen, hcomma]
  simp [hmember, hmembers]

end Steps

theorem endsNumber_cons {c : Char} (hc : c = ',' ∨ c = '\n') : EndsNumber (c :: rest) := by
  rintro _ ⟨⟩
  obtain rfl | rfl := hc
  all_goals decide

theorem endsNumber_items (depth level : Nat) (items : List JsonValue)
    : EndsNumber (spelledItems depth items ++ ((lineStart level).toList ++ rest)) := by
  cases items with
  | nil =>
    rw [spelledItems, toList_lineStart]
    exact endsNumber_cons (.inr rfl)
  | cons item items =>
    rw [spelledItems]
    exact endsNumber_cons (.inl rfl)

theorem endsNumber_members (depth level : Nat) (members : List (String × JsonValue))
    : EndsNumber (spelledMembers depth members ++ ((lineStart level).toList ++ rest)) := by
  cases members with
  | nil =>
    rw [spelledMembers, toList_lineStart]
    exact endsNumber_cons (.inr rfl)
  | cons member members =>
    rw [spelledMembers]
    exact endsNumber_cons (.inl rfl)

theorem dropWhile_quoted (hblanks : ∀ c ∈ blanks, isBlank c) (name : String)
    : (blanks ++ ((quoted name).toList ++ rest)).dropWhile isBlank = (quoted name).toList ++ rest := by
  rw [toList_quoted]
  exact dropWhile_blanks hblanks (by decide)

theorem dropWhile_blank_spelled (depth : Nat) (value : JsonValue)
    : (' ' :: (spelled depth value ++ rest)).dropWhile isBlank = spelled depth value ++ rest := by
  have hblank : ∀ c ∈ [' '], isBlank c := List.forall_mem_singleton.mpr rfl
  exact dropWhile_spelled hblank depth value

mutual

theorem exists_readValue (depth : Nat) (value : JsonValue) (s rest : List Char)
    (hs : s.dropWhile isBlank = spelled depth value ++ rest) (hrest : EndsNumber rest)
    : ∃ h, readValue s = some (meaning value, ⟨rest, h⟩) := by
  match value with
  | .number value => exact exists_readValue_number value hs hrest
  | .text value => exact exists_readValue_text value hs
  | .list [] => exact exists_readValue_nil hs
  | .list (item :: items) =>
    simp only [spelled, List.cons_append, List.append_assoc, List.nil_append] at hs
    apply exists_readValue_list hs
    . obtain ⟨c, cs, hspelled, hblank, hc⟩ := exists_spelled_eq_cons (depth + 1) item
      rw [hspelled]
      exact readToken_eq_none (dropWhile_blanks (isBlank_lineStart _) hblank) hc
    . apply exists_readValue (depth + 1) item
      . exact dropWhile_spelled (isBlank_lineStart _) (depth + 1) item
      . apply endsNumber_items
    . exact exists_readItems (depth + 1) depth items _ rest rfl
  | .object [] => exact exists_readValue_empty hs
  | .object ((name, value) :: members) =>
    simp only [spelled, List.cons_append, List.append_assoc, List.nil_append] at hs
    apply exists_readValue_object hs
    . rw [toList_quoted]
      exact readToken_eq_none (dropWhile_blanks (isBlank_lineStart _) (by decide)) (by decide)
    . apply exists_readMember (dropWhile_quoted (isBlank_lineStart _) name)
      apply exists_readValue (depth + 1) value
      . exact dropWhile_blank_spelled (depth + 1) value
      . apply endsNumber_members
    . exact exists_readMembers (depth + 1) depth members _ rest rfl

theorem exists_readItems (depth level : Nat) (items : List JsonValue) (s rest : List Char)
    (hs : s = spelledItems depth items ++ ((lineStart level).toList ++ ']' :: rest))
    : ∃ h, readItems s = some (meanings items, ⟨rest, h⟩) := by
  match items with
  | [] =>
    rw [hs]
    exact exists_readItems_nil (dropWhile_blanks (isBlank_lineStart level) (by decide))
  | item :: items =>
    simp only [spelledItems, List.cons_append, List.append_assoc] at hs
    rw [hs]
    apply exists_readItems_cons (List.dropWhile_cons_of_neg (by decide))
    . apply exists_readValue depth item
      . exact dropWhile_spelled (isBlank_lineStart depth) depth item
      . apply endsNumber_items
    . exact exists_readItems depth level items _ rest rfl

theorem exists_readMembers (depth level : Nat) (members : List (String × JsonValue)) (s rest : List Char)
    (hs : s = spelledMembers depth members ++ ((lineStart level).toList ++ '\x7d' :: rest))
    : ∃ h, readMembers s = some (memberMeanings members, ⟨rest, h⟩) := by
  match members with
  | [] =>
    rw [hs]
    exact exists_readMembers_nil (dropWhile_blanks (isBlank_lineStart level) (by decide))
  | (name, value) :: members =>
    simp only [spelledMembers, List.cons_append, List.append_assoc] at hs
    rw [hs]
    apply exists_readMembers_cons (List.dropWhile_cons_of_neg (by decide))
    . apply exists_readMember (dropWhile_quoted (isBlank_lineStart depth) name)
      apply exists_readValue depth value
      . exact dropWhile_blank_spelled depth value
      . apply endsNumber_members
    . exact exists_readMembers depth level members _ rest rfl

end

theorem decode_render (value : JsonValue) : decode value.render = some value.meaning := by
  have hrender : value.render.toList = spelled 0 value ++ [] := by
    rw [render, toList_write, String.toList_empty, List.nil_append, List.append_nil]
  have hdrop : value.render.toList.dropWhile isBlank = spelled 0 value ++ [] := by
    rw [hrender]
    have hblanks : ∀ c ∈ ([] : List Char), isBlank c := nofun
    exact dropWhile_spelled hblanks 0 value
  obtain ⟨_, hread⟩ := exists_readValue 0 value value.render.toList [] hdrop nofun
  have hend : (skipBlanks []).val = [] := rfl
  simp [decode, hread, hend, guard]

end Values

end Brainfuck.JsonValue
