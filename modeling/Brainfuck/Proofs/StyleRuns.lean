import Brainfuck.Highlight
import Mathlib.Data.List.Chain

/-!
This module contains the law of the highlighter. It cuts a line into runs of one style that cannot be made
longer, and this is the only way to cut the line so, whatever the styles of the palette are. The loop of the
highlighter is first shown to be a fold over the line from the right, along which runs grow by one character.
-/

namespace Brainfuck.Palette

variable {σ : Type} {palette : Palette σ} {c : Char} {cs : List Char} {span : Span σ} {spans : List (Span σ)}

/--
`palette.Runs cs spans`: the spans are the characters `cs`, cut where the style changes and nowhere else.
-/
structure Runs (palette : Palette σ) (cs : List Char) (spans : List (Span σ)) : Prop where
  chars : spans.flatMap Span.chars = cs
  nonempty : ∀ span ∈ spans, span.chars ≠ []
  style : ∀ span ∈ spans, ∀ c ∈ span.chars, palette.styleOf c = span.style
  maximal : spans.IsChain fun span next => span.style ≠ next.style

theorem runs_nil : palette.Runs cs [] ↔ cs = [] := by
  constructor
  . intro h
    exact h.chars.symm
  . rintro rfl
    exact ⟨rfl, by simp, by simp, .nil⟩

theorem runs_cons
    : palette.Runs cs (span :: spans)
        ↔
      ∃ rest, cs = span.chars ++ rest ∧ span.chars ≠ [] ∧ (∀ c ∈ span.chars, palette.styleOf c = span.style) ∧
        (∀ next ∈ spans.head?, span.style ≠ next.style) ∧ palette.Runs rest spans := by
  constructor
  . intro ⟨hchars, hnonempty, hstyle, hmaximal⟩
    rw [List.forall_mem_cons] at hnonempty hstyle
    rw [List.isChain_cons] at hmaximal
    refine ⟨spans.flatMap Span.chars, ?_, hnonempty.1, hstyle.1, hmaximal.1, ?_⟩
    . rw [← hchars, List.flatMap_cons]
    . exact ⟨rfl, hnonempty.2, hstyle.2, hmaximal.2⟩
  . intro ⟨rest, hcs, hnonempty, hstyle, hnext, hruns⟩
    constructor
    . rw [List.flatMap_cons, hruns.chars, hcs]
    . exact List.forall_mem_cons.mpr ⟨hnonempty, hruns.nonempty⟩
    . exact List.forall_mem_cons.mpr ⟨hstyle, hruns.style⟩
    . exact List.isChain_cons.mpr ⟨hnext, hruns.maximal⟩

variable [DecidableEq σ]

def addChar (palette : Palette σ) (c : Char) (spans : List (Span σ)) : List (Span σ) :=
  let style := palette.styleOf c
  match spans with
  | [] => [⟨style, [c]⟩]
  | span :: rest =>
    if span.style = style then ⟨style, c :: span.chars⟩ :: rest else ⟨style, [c]⟩ :: span :: rest

theorem addChar_of_ne (h : ∀ span ∈ spans.head?, palette.styleOf c ≠ span.style)
    : palette.addChar c spans = ⟨palette.styleOf c, [c]⟩ :: spans := by
  cases spans with
  | nil => rfl
  | cons span spans => simp only [addChar, if_neg (h span rfl).symm]

theorem addChar_of_eq (h : span.style = palette.styleOf c)
    : palette.addChar c (span :: spans) = ⟨palette.styleOf c, c :: span.chars⟩ :: spans := by
  simp only [addChar, if_pos h]

theorem Runs.addChar (h : palette.Runs cs spans) (c : Char)
    : palette.Runs (c :: cs) (palette.addChar c spans) := by
  by_cases hne : ∀ span ∈ spans.head?, palette.styleOf c ≠ span.style
  . rw [addChar_of_ne hne, runs_cons]
    exact ⟨cs, rfl, List.cons_ne_nil c [], by simp, hne, h⟩
  . cases spans with
    | nil => simp at hne
    | cons span spans =>
      obtain ⟨rest, rfl, _, hstyle, hnext, hrest⟩ := runs_cons.mp h
      have heq : span.style = palette.styleOf c := by simpa [eq_comm] using hne
      rw [addChar_of_eq heq, runs_cons]
      refine ⟨rest, rfl, List.cons_ne_nil c _, ?_, heq ▸ hnext, hrest⟩
      exact List.forall_mem_cons.mpr ⟨rfl, fun d hd => (hstyle d hd).trans heq⟩

/--
Runs can only come about by putting their first character in front of runs.
-/
theorem Runs.exists_addChar (h : palette.Runs (c :: cs) spans)
    : ∃ rest, palette.Runs cs rest ∧ spans = palette.addChar c rest := by
  cases spans with
  | nil => exact absurd (runs_nil.mp h) (List.cons_ne_nil c cs)
  | cons span spans =>
    obtain ⟨style, chars⟩ := span
    obtain ⟨rest, hcs, hnonempty, hstyle, hnext, hruns⟩ := runs_cons.mp h
    dsimp only at hcs hnonempty hstyle hnext
    cases chars with
    | nil => contradiction
    | cons d chars =>
      obtain ⟨rfl, rfl⟩ := List.cons.inj hcs
      obtain ⟨rfl, hstyle⟩ := List.forall_mem_cons.mp hstyle
      cases chars with
      | nil =>
        -- The run ends with the character, so the runs behind it are those of the rest.
        exact ⟨spans, hruns, (addChar_of_ne hnext).symm⟩
      | cons e chars =>
        have hrest : palette.Runs (e :: chars ++ rest) (⟨palette.styleOf c, e :: chars⟩ :: spans) :=
          runs_cons.mpr ⟨rest, rfl, List.cons_ne_nil e chars, hstyle, hnext, hruns⟩
        exact ⟨_, hrest, by rw [addChar_of_eq rfl]⟩

theorem runs_iff : palette.Runs cs spans ↔ spans = cs.foldr palette.addChar [] := by
  induction cs generalizing spans with
  | nil =>
    constructor
    . intro h
      cases spans with
      | nil => rfl
      | cons span spans =>
        obtain ⟨rest, hcs, hnonempty, _⟩ := runs_cons.mp h
        exact absurd (List.append_eq_nil_iff.mp hcs.symm).1 hnonempty
    . rintro rfl
      exact runs_nil.mpr rfl
  | cons c cs ih =>
    constructor
    . intro h
      obtain ⟨rest, hrest, rfl⟩ := h.exists_addChar
      rw [List.foldr_cons, ← ih.mp hrest]
    . rintro rfl
      exact (ih.mpr rfl).addChar c

theorem style_of_mem_head?_addChar (h : span ∈ (palette.addChar c spans).head?) : span.style = palette.styleOf c := by
  unfold addChar at h
  cases spans with
  | nil =>
    cases h
    rfl
  | cons first rest =>
    dsimp only at h
    split at h
    . cases h
      rfl
    . cases h
      rfl

theorem foldr_addChar_of_uniform {style : σ} {buffer : List Char} (hbuffer : buffer ≠ [])
    (hstyle : ∀ c ∈ buffer, palette.styleOf c = style) (hnext : ∀ span ∈ spans.head?, style ≠ span.style)
    : buffer.foldr palette.addChar spans = ⟨style, buffer⟩ :: spans := by
  induction buffer with
  | nil => contradiction
  | cons c buffer ih =>
    obtain ⟨hc, hstyle⟩ := List.forall_mem_cons.mp hstyle
    rw [List.foldr_cons]
    cases buffer with
    | nil =>
      rw [List.foldr_nil, addChar_of_ne (by rwa [hc]), hc]
    | cons d buffer =>
      rw [ih (List.cons_ne_nil d buffer) hstyle, addChar_of_eq hc.symm, hc]

/--
The invariant of the loop: what is collected are characters of the current style, and they stand in front of what
is left of the line.
-/
theorem highlight_go_eq {style : σ} {buffer : List Char} (done : List (Span σ)) (hbuffer : buffer ≠ [])
    (hstyle : ∀ c ∈ buffer, palette.styleOf c = style)
    : highlight.go palette done (some style) buffer cs = done ++ (buffer ++ cs).foldr palette.addChar [] := by
  induction cs generalizing done style buffer with
  | nil =>
    have hempty : ¬buffer.isEmpty = true := by simpa using hbuffer
    rw [highlight.go, if_neg hempty, List.append_nil, foldr_addChar_of_uniform hbuffer hstyle (by simp)]
  | cons c cs ih =>
    rw [highlight.go]
    split
    . next hc =>
      have hmore : ∀ d ∈ buffer ++ [c], palette.styleOf d = style :=
        List.forall_mem_append.mpr ⟨hstyle, by simp [hc]⟩
      rw [ih done (by simp) hmore, List.append_assoc, List.singleton_append]
    . next hc =>
      -- The style changes, so the buffer is a run of its own and the new one starts with this character.
      have hnext : ∀ span ∈ ((c :: cs).foldr palette.addChar []).head?, style ≠ span.style := by
        intro span hspan
        rw [style_of_mem_head?_addChar hspan]
        exact hc
      rw [ih _ (List.cons_ne_nil c []) (by simp), List.singleton_append, List.foldr_append,
        foldr_addChar_of_uniform hbuffer hstyle hnext, List.append_assoc, List.singleton_append]

theorem highlight_eq_foldr (palette : Palette σ) (line : String)
    : palette.highlight line = line.toList.foldr palette.addChar [] := by
  unfold highlight
  cases line.toList with
  | nil => rfl
  | cons c cs => exact highlight_go_eq [] (List.cons_ne_nil c []) (by simp)

/--
The highlighter yields the one decomposition of a line into maximal runs. For every palette and every line, spans
are what it returns if and only if their texts make up the line, none is empty, all characters of a span have the
style of the span, and neighbouring spans have different styles.
-/
theorem highlight_yields_maximal_runs (palette : Palette σ) (line : String) (spans : List (Span σ))
    : spans = palette.highlight line
        ↔
      String.join (spans.map Span.text) = line ∧
        (∀ span ∈ spans, span.text ≠ "") ∧
        (∀ span ∈ spans, ∀ c ∈ span.text.toList, palette.styleOf c = span.style) ∧
        spans.IsChain fun span next => span.style ≠ next.style := by
  have htext : String.join (spans.map Span.text) = line ↔ spans.flatMap Span.chars = line.toList := by
    rw [← String.toList_inj]
    simp [String.toList_join, Span.text, List.flatMap_map]
  have hempty : ∀ span : Span σ, span.text ≠ "" ↔ span.chars ≠ [] := by
    simp [Span.text]
  have hchars : ∀ span : Span σ, span.text.toList = span.chars := fun span => String.toList_ofList
  rw [highlight_eq_foldr, ← runs_iff, htext]
  simp only [hempty, hchars]
  exact ⟨fun h => ⟨h.chars, h.nonempty, h.style, h.maximal⟩, fun ⟨hc, hn, hs, hm⟩ => ⟨hc, hn, hs, hm⟩⟩

-- Both brackets have one style, so they are in one run.
example : (pastel.highlight "+[]x").map Span.text = ["+", "[]", "x"] := by
  decide +kernel

end Brainfuck.Palette
