import AppPipeline.Proofs.Json.Contents
import AppPipeline.Proofs.Yaml.Documents
import AppPipeline.Proofs.Yaml.Values
import AppPipeline.Yaml.Reader

/-!
# Reading what was written

Written data are read as the data with every text as it is read back (`Legible.read_write`).
Only the next line, U+0085, is not kept: other texts come back as they were
(`readBackText_eq_self`), and data without it are the same as before (`round_trip`).
-/

namespace AppPipeline

/-! ## Texts that come back -/

namespace Yaml

variable {s r : List Char} {c : Char} {n i column : Nat} {j : Json} {own : Bool}
variable {xs : List Json} {es : List (String × Json)} {ns : List Nat}

/-- The code of the line break that is not kept. -/
def nextLine : Nat := 0x85

theorem lineFeed_eq_self (h : c.toNat ≠ nextLine) : lineFeed c = c := if_neg h

theorem refolded_of_ne_feed {behind : Bool} (h : ∀ c ∈ s, c.toNat ≠ nextLine ∧ c ≠ '\n') :
    refolded behind s = s := by
  induction s generalizing behind with
  | nil => rfl
  | cons c s ih =>
    obtain ⟨hnext, hfeed⟩ := h c List.mem_cons_self
    have htail : ∀ {behind}, refolded behind s = s :=
      ih fun d hd => h d (List.mem_cons_of_mem c hd)
    have hkept : (lineFeed c != '\n') = true := by
      rw [lineFeed_eq_self hnext]
      exact bne_iff_ne.2 hfeed
    rw [refolded, htail, htail, hkept, Bool.or_true, lineFeed_eq_self hnext]
    split <;> rfl

/-- A text without the next line comes back as it was. -/
theorem readBack_eq_self (h : ∀ c ∈ s, c.toNat ≠ nextLine) : readBack s = s := by
  rw [readBack]
  split
  · rfl
  · next hstyle =>
    refine refolded_of_ne_feed fun c hc => ⟨h c hc, ?_⟩
    rintro rfl
    have hfeed : s.contains '\n' = true := List.contains_iff_mem.2 hc
    rw [styleOf, if_pos hfeed] at hstyle
    split at hstyle <;> cases hstyle
  · rfl
  · exact (List.map_congr_left fun c hc => lineFeed_eq_self (h c hc)).trans (List.map_id s)

end Yaml

namespace Json

/-- The text comes back as it was. -/
def Kept (s : String) : Prop := ∀ c ∈ s.toList, c.toNat ≠ Yaml.nextLine

theorem readBackText_eq_self {s : String} (h : Kept s) : readBackText s = s := by
  rw [readBackText, Yaml.readBack_eq_self h, String.ofList_toList]

mutual

theorem readBack_eq_self : ∀ j : Json, (∀ s ∈ j.texts, Kept s) → j.readBack = j
  | .null, _ => rfl
  | .bool _, _ => rfl
  | .int _, _ => rfl
  | .float _, _ => rfl
  | .str s, h => by rw [readBack, readBackText_eq_self (h s List.mem_cons_self)]
  | .list xs, h => by rw [readBack, readBackItems_eq_self xs h]
  | .object es, h => by rw [readBack, readBackFields_eq_self es h]

theorem readBackItems_eq_self :
    ∀ xs : List Json, (∀ s ∈ itemTexts xs, Kept s) → readBackItems xs = xs
  | [], _ => rfl
  | x :: xs, h => by
    have hx := readBack_eq_self x fun s hs => h s (List.mem_append_left _ hs)
    have hxs := readBackItems_eq_self xs fun s hs => h s (List.mem_append_right _ hs)
    rw [readBackItems, hx, hxs]

theorem readBackFields_eq_self :
    ∀ es : List (String × Json), (∀ s ∈ fieldTexts es, Kept s) → readBackFields es = es
  | [], _ => rfl
  | (k, v) :: es, h => by
    rw [fieldTexts] at h
    have hk := readBackText_eq_self (h k List.mem_cons_self)
    have hv := readBack_eq_self v fun s hs =>
      h s (List.mem_cons_of_mem k (List.mem_append_left _ hs))
    have hes := readBackFields_eq_self es fun s hs =>
      h s (List.mem_cons_of_mem k (List.mem_append_right _ hs))
    rw [readBackFields, hk, hv, hes]

end

end Json

namespace Yaml

variable {s r : List Char} {c : Char} {n i column : Nat} {j : Json} {own : Bool}
variable {xs : List Json} {es : List (String × Json)} {ns : List Nat}

/-! ## Documents -/

theorem itemLevels_le_length
    (h : ∀ x ∈ xs, ∀ own, x.levels ≤ (valueTokens own x).length) :
    Json.itemLevels xs ≤ (itemTokens xs).length ∧
      (xs ≠ [] → Json.itemLevels xs < (itemTokens xs).length) := by
  induction xs with
  | nil => exact ⟨Nat.le_refl 0, fun hne => absurd rfl hne⟩
  | cons x xs ih =>
    have hx := h x List.mem_cons_self false
    have hxs := (ih fun y hy => h y (List.mem_cons_of_mem x hy)).1
    have hlength : (itemTokens (x :: xs)).length
        = (valueTokens false x).length + (itemTokens xs).length + 1 := by
      rw [itemTokens, List.cons_append, List.length_cons, List.length_append]
    have hmax : max x.levels (Json.itemLevels xs)
        ≤ (valueTokens false x).length + (itemTokens xs).length := Nat.max_le.2 ⟨by omega, by omega⟩
    rw [Json.itemLevels, hlength]
    exact ⟨by omega, fun _ => by omega⟩

theorem fieldLevels_le_length
    (h : ∀ e ∈ es, ∀ own, e.2.levels ≤ (valueTokens own e.2).length) :
    Json.fieldLevels es ≤ (entryTokens es).length := by
  induction es with
  | nil => exact Nat.le_refl 0
  | cons e es ih =>
    obtain ⟨k, v⟩ := e
    have hv := h (k, v) List.mem_cons_self (isSimpleKey k.toList)
    have hes := ih fun f hf => h f (List.mem_cons_of_mem _ hf)
    rw [Json.fieldLevels, entryTokens, List.length_append]
    simp only [List.length_cons]
    exact Nat.max_le.2 ⟨by dsimp only at hv; omega, by omega⟩

theorem Legible.levels_le_length (h : Legible j) (own : Bool) :
    j.levels ≤ (valueTokens own j).length := by
  induction h generalizing own with
  | @bare j h =>
    rw [valueTokens_bare h]
    cases j <;> first | exact Nat.le_refl 1 | exact absurd h id
  | text => exact Nat.le_refl 1
  | @list xs _ ih =>
    obtain ⟨hle, hlt⟩ := itemLevels_le_length ih
    by_cases hxs : xs = []
    · subst hxs
      exact Nat.le_succ 1
    · have hlt := hlt hxs
      rw [Json.levels, valueTokens_list hxs]
      split
      · exact hlt
      · rw [List.length_append, List.length_cons]
        omega
  | @object es _ _ _ ih =>
    have hle := fieldLevels_le_length ih
    by_cases hes : es = []
    · subst hes
      exact Nat.le_succ 1
    · rw [Json.levels, valueTokens_object hes, List.length_append, List.length_cons]
      omega

/-- Written data are read as the data with every text as it is read back. -/
theorem Legible.read_write (h : Legible j) (hlevels : j.levels ≤ mostLevels) :
    read (write j) = .ok ⟨Value.ofJson j.readBack, #[]⟩ := by
  obtain ⟨us, hus, htokens⟩ := tokens_document h hlevels
  have hdeepest : mostLevels ≤ Node.deepest := by decide
  have hnode := document_tokens h (Nat.le_trans hlevels hdeepest) hus
  have hlength := h.levels_le_length false
  have hvalue := h.value_writtenNode
    (show j.levels < (valueTokens false j ++ us).length + 2 by rw [List.length_append]; omega) 0
  rw [read, write, String.toList_ofList, htokens, ofTokens, hnode]
  show (writtenNode j).meaning _ = _
  rw [Node.meaning, h.tree?_writtenNode]
  simp only [hvalue]

/-- Data are written, and read with every text as it is read back; without a next line in a key
or a text they are the same as before. -/
theorem round_trip {j : Json} (h : Legible j) (hlevels : j.levels ≤ mostLevels) :
    (∃ text, write? j = some text ∧ read text = .ok ⟨Value.ofJson j.readBack, #[]⟩) ∧
      ((∀ s ∈ j.texts, Json.Kept s) → j.readBack = j) :=
  ⟨⟨write j, if_pos hlevels, h.read_write hlevels⟩, Json.readBack_eq_self j⟩

/-- The next line becomes a space. -/
theorem round_trip_nextLine :
    ∃ text, write? (.object [("version", .str "20\u008518")]) = some text ∧
      read text = .ok ⟨.map [(.text "version", .text "20 18")], #[]⟩ := by
  have hkey : LegibleKey "version".toList := legibleKey_of_length_le (by decide) (by decide)
  have hlegible : Legible (.object [("version", .str "20\u008518")]) :=
    .object (fun e he => by rw [List.mem_singleton.1 he]; exact hkey) (by decide)
      fun e he => by rw [List.mem_singleton.1 he]; exact .text (by decide)
  have hread : Json.readBack (.object [("version", .str "20\u008518")])
      = .object [("version", .str "20 18")] := by decide
  have h := (round_trip hlegible (by decide)).1
  rwa [hread] at h

end Yaml

end AppPipeline
