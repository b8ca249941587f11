import Brainfuck.Text.Line

/-!
This module contains the view of a stream as the list of its lines. Whoever reads a line from the stream takes
the head of this list and leaves the tail.
-/

namespace Brainfuck.Text

def lines : Bytes → List Bytes
  | [] => []
  | b :: rest =>
    if b = newline then
      [b] :: lines rest
    else
      match lines rest with
      | [] => [[b]]
      | line :: more => (b :: line) :: more

def lineChar? (line : Bytes) : Option Char :=
  (decode? line).bind firstChar?

theorem lines_cons_newline (rest : Bytes) : lines (newline :: rest) = [newline] :: lines rest := by
  rw [lines, if_pos rfl]

theorem lines_cons_of_ne {b : UInt8} (hb : b ≠ newline) (rest : Bytes)
    : lines (b :: rest) = (b :: (lines rest).headD []) :: (lines rest).tail := by
  rw [lines, if_neg hb]
  cases lines rest <;> rfl

theorem flatten_lines (stream : Bytes) : (lines stream).flatten = stream := by
  induction stream with
  | nil => rfl
  | cons b rest ih =>
    by_cases hb : b = newline
    . subst hb
      rw [lines_cons_newline, List.flatten_cons, ih]
      rfl
    . rw [lines_cons_of_ne hb, List.flatten_cons]
      refine congrArg (b :: ·) (Eq.trans ?_ ih)
      cases lines rest <;> rfl

theorem exists_bodies (stream : Bytes)
    : ∃ (bodies : List Bytes) (last : Bytes),
        lines stream = bodies.map (· ++ [newline]) ++ (if last = [] then [] else [last]) ∧
        (∀ body ∈ bodies, newline ∉ body) ∧
        newline ∉ last := by
  induction stream with
  | nil => exact ⟨[], [], rfl, by simp, by simp⟩
  | cons b rest ih =>
    obtain ⟨bodies, last, hlines, hbodies, hlast⟩ := ih
    by_cases hb : b = newline
    . refine ⟨[] :: bodies, last, ?_, ?_, hlast⟩
      . rw [hb, lines_cons_newline, hlines]
        rfl
      . simpa using hbodies
    . cases bodies with
      | nil =>
        refine ⟨[], b :: last, ?_, by simp, by simp [Ne.symm hb, hlast]⟩
        rw [lines_cons_of_ne hb, hlines]
        by_cases hempty : last = [] <;> simp [hempty]
      | cons body bodies =>
        refine ⟨(b :: body) :: bodies, last, ?_, ?_, hlast⟩
        . rw [lines_cons_of_ne hb, hlines]
          rfl
        . intro other hmem
          cases hmem with
          | head =>
            have hbody := hbodies body List.mem_cons_self
            simp [Ne.symm hb, hbody]
          | tail _ hmem => exact hbodies other (List.mem_cons_of_mem _ hmem)

theorem exists_body_firstChar? (text : String)
    : ∃ body trailing, text.toList = body ++ trailing ∧
        (∀ c ∈ body.getLast?, c ≠ '\r' ∧ c ≠ '\n') ∧
        (∀ c ∈ trailing, c = '\r' ∨ c = '\n') ∧
        firstChar? text = body.head? := by
  let ends := fun c => c == '\r' || c == '\n'
  refine ⟨(text.toList.reverse.dropWhile ends).reverse, (text.toList.reverse.takeWhile ends).reverse,
    ?_, ?_, ?_, rfl⟩
  . rw [← List.reverse_append, List.takeWhile_append_dropWhile, List.reverse_reverse]
  . intro c hmem
    rw [List.getLast?_reverse] at hmem
    have hhead := List.head?_dropWhile_not ends text.toList.reverse
    rw [hmem] at hhead
    simpa [ends] using hhead
  . intro c hmem
    have hall := List.all_takeWhile (p := ends) (l := text.toList.reverse)
    have hends := List.all_eq_true.1 hall c (List.mem_reverse.1 hmem)
    simpa [ends] using hends

theorem splitLine_cons_newline (rest : Bytes) : splitLine (newline :: rest) = ([newline], rest) := by
  simp [splitLine]

theorem splitLine_cons_of_ne {b : UInt8} (hb : b ≠ newline) (rest : Bytes)
    : splitLine (b :: rest) = (b :: (splitLine rest).1, (splitLine rest).2) := by
  unfold splitLine
  rw [List.dropWhile_cons_of_pos (by simpa using hb), List.takeWhile_cons_of_pos (by simpa using hb)]
  split <;> rfl

theorem fst_splitLine (stream : Bytes) : (splitLine stream).1 = (lines stream).headD [] := by
  induction stream with
  | nil => rfl
  | cons b rest ih =>
    by_cases hb : b = newline
    . rw [hb, splitLine_cons_newline, lines_cons_newline]
      rfl
    . rw [splitLine_cons_of_ne hb, lines_cons_of_ne hb, ih]
      rfl

theorem lines_snd_splitLine (stream : Bytes) : lines (splitLine stream).2 = (lines stream).tail := by
  induction stream with
  | nil => rfl
  | cons b rest ih =>
    by_cases hb : b = newline
    . rw [hb, splitLine_cons_newline, lines_cons_newline]
      rfl
    . rw [splitLine_cons_of_ne hb, lines_cons_of_ne hb, ih]
      rfl

theorem ne_nil_of_mem_lines {stream line : Bytes} (h : line ∈ lines stream) : line ≠ [] := by
  obtain ⟨bodies, last, hlines, -, -⟩ := exists_bodies stream
  rw [hlines, List.mem_append] at h
  cases h with
  | inl h =>
    obtain ⟨body, -, rfl⟩ := List.mem_map.1 h
    simp
  | inr h =>
    split at h
    . contradiction
    . next hlast =>
      rw [List.mem_singleton.1 h]
      exact hlast

theorem readLine_eq (stream : Bytes)
    : readLine stream
        =
      (if (splitLine stream).1 = [] then none else decode? (splitLine stream).1, (splitLine stream).2) := by
  unfold readLine
  split
  . next hsplit => rw [hsplit, if_pos rfl]
  . next hne hsplit => rw [hsplit, if_neg hne]

theorem fst_readLine (stream : Bytes) : (readLine stream).1 = (lines stream).head?.bind decode? := by
  rw [readLine_eq, fst_splitLine]
  cases hlines : lines stream with
  | nil => rfl
  | cons line more =>
    have hmem : line ∈ lines stream := by simp [hlines]
    exact if_neg (ne_nil_of_mem_lines hmem)

theorem lines_snd_readLine (stream : Bytes) : lines (readLine stream).2 = (lines stream).tail := by
  rw [readLine_eq, lines_snd_splitLine]

theorem fst_readFirstChar (stream : Bytes)
    : (readFirstChar stream).1 = (lines stream).head?.bind lineChar? := by
  change (readLine stream).1.bind firstChar? = _
  rw [fst_readLine]
  cases (lines stream).head? <;> rfl

theorem lines_snd_readFirstChar (stream : Bytes)
    : lines (readFirstChar stream).2 = (lines stream).tail :=
  lines_snd_readLine stream

end Brainfuck.Text
