import AppPipeline.Json.Basic
import AppPipeline.Proofs.Pairs

/-!
# What equal data have in common

`same` passes over the order of fields and the spelling of numbers. Data that
are the same in this sense have

* fields under the same keys (`Same.isSome_path?`),
* the same texts under them (`Same.textAt?`),
* lists of data that are the same item by item (`Same.items`), so that whatever
  canonical data keep of an item is the same (`Same.map_items`).
-/

namespace AppPipeline.Json

/-! ## Paths -/

/-- The value that a list of keys leads to. -/
def path? (j : Json) : List String → Option Json
  | [] => some j
  | key :: keys => (j.field? key).bind fun v => v.path? keys

/-- The text that a list of keys leads to. -/
def textAt? (j : Json) (keys : List String) : Option String :=
  match j.path? keys with
  | some (.str s) => some s
  | _ => none

/-- The items of the list that a list of keys leads to. -/
def itemsAt (j : Json) (keys : List String) : List Json :=
  match j.path? keys with
  | some (.list items) => items
  | _ => []

theorem isSome_field?_object (fields : List (String × Json)) (key : String) :
    ((Json.object fields).field? key).isSome = true ↔ key ∈ fields.map Prod.fst := by
  rw [field?, isSome_lookup]

theorem path?_append (j : Json) (keys more : List String) :
    j.path? (keys ++ more) = (j.path? keys).bind fun v => v.path? more := by
  induction keys generalizing j with
  | nil => rfl
  | cons key keys ih =>
    rw [List.cons_append, path?, path?, Option.bind_assoc]
    exact congrArg _ (funext fun v => ih v)

/-! ## Canonical data -/

theorem canonicalItems_eq_map (items : List Json) :
    canonicalItems items = items.map canonical := by
  induction items with
  | nil => rfl
  | cons x xs ih => rw [canonicalItems, ih, List.map_cons]

/-- Sorting a field in keeps it the first one with its key. -/
theorem lookup_insertSorted (f : String × Json) (fields : List (String × Json)) (key : String) :
    (insertSorted f fields).lookup key = (f :: fields).lookup key := by
  induction fields with
  | nil => rfl
  | cons g rest ih =>
    rw [insertSorted]
    split
    · rfl
    · next hlt =>
      have hne : f.1 ≠ g.1 := fun e => hlt (e ▸ String.le_refl g.1)
      rw [List.lookup_cons, ih, List.lookup_cons, List.lookup_cons, List.lookup_cons]
      by_cases hg : key = g.1
      · have hf : (key == f.1) = false := by
          rw [hg]
          exact beq_false_of_ne (Ne.symm hne)
        rw [hf]
      · rw [beq_false_of_ne hg]

theorem lookup_canonicalFields (fields : List (String × Json)) (key : String) :
    (canonicalFields fields).lookup key = (fields.lookup key).map canonical := by
  induction fields with
  | nil => rfl
  | cons f rest ih =>
    obtain ⟨k, v⟩ := f
    rw [canonicalFields, lookup_insertSorted, List.lookup_cons, List.lookup_cons, ih]
    cases key == k <;> rfl

theorem field?_canonical (j : Json) (key : String) :
    (canonical j).field? key = (j.field? key).map canonical := by
  cases j with
  | float x =>
    rw [canonical]
    cases x.toInt? <;> rfl
  | object fields => exact lookup_canonicalFields fields key
  | _ => rfl

theorem path?_canonical (j : Json) (keys : List String) :
    (canonical j).path? keys = (j.path? keys).map canonical := by
  induction keys generalizing j with
  | nil => rfl
  | cons key keys ih =>
    rw [path?, path?, field?_canonical]
    cases j.field? key with
    | none => rfl
    | some v => exact ih v

theorem textAt?_canonical (j : Json) (keys : List String) :
    (canonical j).textAt? keys = j.textAt? keys := by
  rw [textAt?, textAt?, path?_canonical]
  cases j.path? keys with
  | none => rfl
  | some v =>
    cases v with
    | float x =>
      rw [Option.map_some, canonical]
      cases x.toInt? <;> rfl
    | _ => rfl

theorem itemsAt_canonical (j : Json) (keys : List String) :
    (canonical j).itemsAt keys = (j.itemsAt keys).map canonical := by
  rw [itemsAt, itemsAt, path?_canonical]
  cases j.path? keys with
  | none => rfl
  | some v =>
    cases v with
    | float x =>
      rw [Option.map_some, canonical]
      cases x.toInt? <;> rfl
    | list items => exact canonicalItems_eq_map items
    | _ => rfl

/-! ## Data that are the same -/

/-- The two values are the same data. -/
def Same (a b : Json) : Prop := canonical a = canonical b

theorem same_iff (a b : Json) : same a b = true ↔ Same a b := by
  rw [same, beq_iff_eq, Same]

namespace Same

variable {a b : Json}

theorem map_path? (h : Same a b) (keys : List String) :
    (a.path? keys).map canonical = (b.path? keys).map canonical := by
  rw [← path?_canonical, ← path?_canonical, h]

theorem isSome_path? (h : Same a b) (keys : List String) :
    (a.path? keys).isSome = (b.path? keys).isSome := by
  rw [← Option.isSome_map (f := canonical), h.map_path? keys, Option.isSome_map]

theorem textAt? (h : Same a b) (keys : List String) : a.textAt? keys = b.textAt? keys := by
  rw [← textAt?_canonical, h, textAt?_canonical]

theorem items (h : Same a b) (keys : List String) :
    (a.itemsAt keys).map canonical = (b.itemsAt keys).map canonical := by
  rw [← itemsAt_canonical, ← itemsAt_canonical, h]

theorem map_items {β : Type} {f : Json → β} (hf : ∀ j, f (canonical j) = f j) (h : Same a b)
    (keys : List String) : (a.itemsAt keys).map f = (b.itemsAt keys).map f := by
  have hmap : ∀ items : List Json, (items.map canonical).map f = items.map f := by
    intro items
    rw [List.map_map]
    exact List.map_congr_left fun j _ => hf j
  rw [← hmap, h.items keys, hmap]

end Same

end AppPipeline.Json
