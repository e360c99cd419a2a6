import Mathlib.Data.List.Chain
import Intake.Name

/-!
# Sanitized names

An answer that has been sanitized is in a normal form (`Sanitized`): legal
characters, no two specials in a row, no point in front. Each of the three
stages of `sanitizeAnswer` establishes one of the three conditions and keeps
those before it, and each leaves a text alone that already satisfies its own, so
the texts in normal form are exactly those that sanitizing does not change.
-/

namespace Intake

namespace Name

/-- Sanitizing has nothing to do. -/
structure Sanitized (cs : List Char) : Prop where
  legal : ∀ c ∈ cs, isLegal c = true
  single : cs.IsChain fun a b => ¬(isSpecial a = true ∧ isSpecial b = true)
  front : cs.head? ≠ some '.'

/-! ## Illegal characters -/

theorem isLegal_of_mem_replaceIllegal : ∀ {cs : List Char} {inRun : Bool} {c : Char},
    c ∈ replaceIllegal inRun cs → isLegal c = true
  | [], _, _, h => by cases h
  | x :: rest, inRun, c, h => by
      simp only [replaceIllegal] at h
      split at h
      · next hx =>
          rcases List.mem_cons.mp h with rfl | h
          · exact hx
          · exact isLegal_of_mem_replaceIllegal h
      · split at h
        · exact isLegal_of_mem_replaceIllegal h
        · rcases List.mem_cons.mp h with rfl | h
          · rfl
          · exact isLegal_of_mem_replaceIllegal h

theorem replaceIllegal_of_legal : ∀ {cs : List Char}, (∀ c ∈ cs, isLegal c = true) →
    ∀ inRun, replaceIllegal inRun cs = cs
  | [], _, _ => rfl
  | c :: rest, h, inRun => by
      rw [replaceIllegal, if_pos (h c List.mem_cons_self),
        replaceIllegal_of_legal fun x hx => h x (List.mem_cons_of_mem c hx)]

/-! ## Runs of specials -/

theorem mergeSpecials_sublist : ∀ (cs : List Char) (inRun : Bool),
    (mergeSpecials inRun cs).Sublist cs
  | [], _ => List.Sublist.slnil
  | c :: rest, inRun => by
      rw [mergeSpecials]
      split
      · exact (mergeSpecials_sublist rest true).cons c
      · exact (mergeSpecials_sublist rest (isSpecial c)).cons_cons c

/-- Inside a run of specials, what is left does not begin with one. -/
theorem head?_mergeSpecials_true : ∀ (cs : List Char),
    ∀ c ∈ (mergeSpecials true cs).head?, isSpecial c = false
  | [], c, h => by cases h
  | x :: rest, c, h => by
      rw [mergeSpecials] at h
      split at h
      · exact head?_mergeSpecials_true rest c h
      · next hx =>
          obtain rfl : x = c := Option.some.inj h
          simpa using hx

theorem isChain_mergeSpecials : ∀ (cs : List Char) (inRun : Bool),
    (mergeSpecials inRun cs).IsChain fun a b => ¬(isSpecial a = true ∧ isSpecial b = true)
  | [], _ => List.IsChain.nil
  | c :: rest, inRun => by
      rw [mergeSpecials]
      split
      · exact isChain_mergeSpecials rest true
      · refine List.isChain_cons.mpr ⟨?_, isChain_mergeSpecials rest (isSpecial c)⟩
        rintro x hx ⟨hc, hspecial⟩
        rw [hc] at hx
        rw [head?_mergeSpecials_true rest x hx] at hspecial
        cases hspecial

theorem mergeSpecials_of_single : ∀ {cs : List Char} {inRun : Bool},
    (cs.IsChain fun a b => ¬(isSpecial a = true ∧ isSpecial b = true)) →
      (inRun = true → ∀ c ∈ cs.head?, isSpecial c = false) → mergeSpecials inRun cs = cs
  | [], _, _, _ => rfl
  | c :: rest, inRun, hsingle, hhead => by
      obtain ⟨hnext, hrest⟩ := List.isChain_cons.mp hsingle
      have hkept : ¬(isSpecial c && inRun) = true := by
        intro h
        rw [Bool.and_eq_true] at h
        rw [hhead h.2 c rfl] at h
        cases h.1
      rw [mergeSpecials, if_neg hkept, mergeSpecials_of_single hrest fun hc x hx => by
        simpa [hc] using hnext x hx]

/-! ## A point in front -/

theorem replaceFirstPoint_of_front {cs : List Char} (h : cs.head? ≠ some '.') :
    replaceFirstPoint cs = cs := by
  unfold replaceFirstPoint
  split
  · exact absurd rfl h
  · rfl

/-- The underscore that takes the place of a point is a legal special too. -/
theorem sanitized_replaceFirstPoint {cs : List Char} (hlegal : ∀ c ∈ cs, isLegal c = true)
    (hsingle : cs.IsChain fun a b => ¬(isSpecial a = true ∧ isSpecial b = true)) :
    Sanitized (replaceFirstPoint cs) := by
  unfold replaceFirstPoint
  split
  · next rest =>
      obtain ⟨hnext, hrest⟩ := List.isChain_cons.mp hsingle
      refine ⟨fun c hc => ?_, List.isChain_cons.mpr ⟨hnext, hrest⟩, by simp⟩
      rcases List.mem_cons.mp hc with rfl | hc
      · rfl
      · exact hlegal c (List.mem_cons_of_mem _ hc)
  · next hfront =>
      refine ⟨hlegal, hsingle, fun h => ?_⟩
      cases cs with
      | nil => cases h
      | cons c rest =>
          obtain rfl : c = '.' := Option.some.inj h
          exact hfront rest rfl

/-! ## All stages -/

theorem sanitized_sanitizeAnswer (s : String) : Sanitized (sanitizeAnswer s).toList := by
  rw [sanitizeAnswer, String.toList_ofList]
  exact sanitized_replaceFirstPoint
    (fun c hc => isLegal_of_mem_replaceIllegal ((mergeSpecials_sublist _ false).mem hc))
    (isChain_mergeSpecials _ false)

theorem sanitizeAnswer_of_sanitized {s : String} (h : Sanitized s.toList) :
    sanitizeAnswer s = s := by
  rw [sanitizeAnswer, replaceIllegal_of_legal h.legal,
    mergeSpecials_of_single h.single (by simp), replaceFirstPoint_of_front h.front,
    String.ofList_toList]

theorem sanitizeAnswer_sanitizeAnswer (s : String) :
    sanitizeAnswer (sanitizeAnswer s) = sanitizeAnswer s :=
  sanitizeAnswer_of_sanitized (sanitized_sanitizeAnswer s)

/-! ## Keys of records -/

theorem sanitizeKey_sanitizeKey (s : String) : sanitizeKey (sanitizeKey s) = sanitizeKey s := by
  have hchar : ∀ c : Char, isLegal (if isLegal c then c else '_') = true := by
    intro c
    split
    · assumption
    · rfl
  simp only [sanitizeKey, String.toList_ofList, List.map_map, Function.comp_def, hchar, if_true]

end Name

end Intake
