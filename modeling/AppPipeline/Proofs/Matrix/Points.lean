import Mathlib.Algebra.BigOperators.Group.List.Basic
import AppPipeline.Matrix.Enumeration
import AppPipeline.Proofs.Json.Fields

/-!
# Points by their numbers

The points of a space are numbered from zero, and the number of a point, written with the sizes
of the axes as bases, has as its digits the places of the values that the point takes: the last
axis has the lowest digit, so it varies fastest.

* `getElem?_product`: the value that a choice takes on an axis, by a digit of its number;
* `lookup_collect_of_getElem?`: the last of several axes with one name decides;
* `points_by_number`: how many points there are, which one has which number, and that a test
  leaves the others out and changes nothing else.
-/

namespace AppPipeline.Matrix

/-! ## Blocks of one length -/

/-- In a row of blocks, the block and the place in it are the quotient and the remainder. -/
theorem getElem?_flatMap_const {β γ : Type} {f : β → List γ} {m : Nat}
    (hf : ∀ b, (f b).length = m) {l : List β} {k : Nat} {c : γ}
    (h : (l.flatMap f)[k]? = some c) : ∃ b, l[k / m]? = some b ∧ (f b)[k % m]? = some c := by
  induction l generalizing k with
  | nil => cases h
  | cons b l ih =>
    rw [List.flatMap_cons, List.getElem?_append, hf] at h
    split at h
    · next hk => exact ⟨b, by rw [Nat.div_eq_of_lt hk]; rfl, by rwa [Nat.mod_eq_of_lt hk]⟩
    · next hk =>
      have hle : m ≤ k := Nat.not_lt.1 hk
      obtain ⟨b', hb', hc⟩ := ih h
      have hpos : 0 < m := hf b' ▸ Nat.zero_lt_of_lt (List.getElem?_eq_some_iff.1 hc).1
      refine ⟨b', ?_, ?_⟩
      · rwa [Nat.div_eq_sub_div hpos hle, List.getElem?_cons_succ]
      · rwa [Nat.mod_eq_sub_mod hle]

/-! ## Choices -/

variable {α : Type} {axes : List (String × List α)}

/-- How many choices the axes leave. -/
def size (axes : List (String × List α)) : Nat := (axes.map fun axis => axis.2.length).prod

theorem size_cons (axis : String × List α) (axes : List (String × List α)) :
    size (axis :: axes) = axis.2.length * size axes := by
  rw [size, List.map_cons, List.prod_cons, size]

theorem length_product (axes : List (String × List α)) : (product axes).length = size axes := by
  induction axes with
  | nil => rfl
  | cons axis axes ih =>
    simp only [product, List.length_flatMap, List.length_map, ih, List.map_const',
      List.sum_replicate_nat, size_cons]

theorem names_of_mem_product {choices : List (String × α)} (h : choices ∈ product axes) :
    choices.map Prod.fst = axes.map Prod.fst := by
  induction axes generalizing choices with
  | nil =>
    obtain rfl := List.mem_singleton.1 h
    rfl
  | cons axis axes ih =>
    rw [product, List.mem_flatMap] at h
    obtain ⟨v, _, h⟩ := h
    obtain ⟨rest, hrest, rfl⟩ := List.mem_map.1 h
    rw [List.map_cons, List.map_cons, ih hrest]

/-- The sizes of an axis and of those behind it make up the size of all. -/
theorem exists_size_eq {i : Nat} {axis : String × List α} (hi : axes[i]? = some axis) :
    ∃ outer, size axes = size (axes.drop (i + 1)) * (axis.2.length * outer) := by
  induction axes generalizing i with
  | nil => cases hi
  | cons first axes ih =>
    cases i with
    | zero =>
      obtain rfl := Option.some.inj hi
      exact ⟨1, by rw [size_cons, Nat.mul_one, Nat.mul_comm, List.drop_succ_cons, List.drop_zero]⟩
    | succ i =>
      obtain ⟨outer, houter⟩ := ih hi
      refine ⟨outer * first.2.length, ?_⟩
      rw [size_cons, houter, List.drop_succ_cons, Nat.mul_comm first.2.length, Nat.mul_assoc,
        Nat.mul_assoc]

/-- What higher digits add to a number leaves a lower one as it is. -/
theorem mod_div_mod (k s n outer : Nat) : k % (s * (n * outer)) / s % n = k / s % n := by
  rw [Nat.mod_mul_right_div_self, Nat.mod_mul_right_mod]

/-- The place of the value on an axis is a digit of the number of the choice. -/
theorem getElem?_product {k : Nat} {choices : List (String × α)}
    (h : (product axes)[k]? = some choices) {i : Nat} {axis : String × List α}
    (hi : axes[i]? = some axis) :
    ∃ v, axis.2[k / size (axes.drop (i + 1)) % axis.2.length]? = some v ∧
      choices[i]? = some (axis.1, v) := by
  induction axes generalizing k choices i with
  | nil => cases hi
  | cons first axes ih =>
    rw [product] at h
    obtain ⟨v, hv, hrest⟩ :=
      getElem?_flatMap_const (fun v => (List.length_map _).trans (length_product axes)) h
    rw [List.getElem?_map] at hrest
    obtain ⟨rest, hchoice, rfl⟩ := Option.map_eq_some_iff.1 hrest
    cases i with
    | zero =>
      obtain rfl := Option.some.inj hi
      refine ⟨v, ?_, rfl⟩
      rwa [List.drop_succ_cons, List.drop_zero,
        Nat.mod_eq_of_lt (List.getElem?_eq_some_iff.1 hv).1]
    | succ i =>
      rw [List.getElem?_cons_succ] at hi
      obtain ⟨w, hw, hlater⟩ := ih hchoice hi
      obtain ⟨outer, houter⟩ := exists_size_eq hi
      rw [houter, mod_div_mod] at hw
      exact ⟨w, hw, hlater⟩

/-! ## Points -/

theorem lookup_collect_of_getElem? {choices : List (String × α)} {i : Nat} {name : String} {v : α}
    (hi : choices[i]? = some (name, v)) (hlast : name ∉ (choices.drop (i + 1)).map Prod.fst) :
    (Json.collect choices).lookup name = some v := by
  obtain ⟨hlt, hv⟩ := List.getElem?_eq_some_iff.1 hi
  have hsplit : choices = choices.take i ++ (name, v) :: choices.drop (i + 1) := by
    rw [← hv, ← List.drop_eq_getElem_cons hlt, List.take_append_drop]
  have hnone : (choices.drop (i + 1)).reverse.lookup name = none := by
    refine lookup_eq_none ?_
    rwa [List.map_reverse, List.mem_reverse]
  rw [Json.lookup_collect, hsplit, List.reverse_append, List.reverse_cons, List.append_assoc,
    List.lookup_append, hnone, Option.none_or, List.singleton_append, List.lookup_cons,
    beq_self_eq_true]

theorem points_none (axes : List (String × List α)) :
    points axes none = (product axes).map Json.collect := by
  rw [points, ← List.filterMap_eq_map]
  rfl

theorem points_some (axes : List (String × List α)) (test : List (String × α) → Bool) :
    points axes (some test) = (points axes none).filter test := by
  rw [points_none, points]
  simp only [Option.all_some]
  induction product axes with
  | nil => rfl
  | cons choices rest ih =>
    cases h : test (Json.collect choices) with
    | false => simp [h, ih]
    | true => simp [h, ih]

/-- There is a point for every choice. The point with a number has each name once, with the
value that a digit of the number gives on the last axis of that name; and a test leaves those
points that pass it, in order. -/
theorem points_by_number (axes : List (String × List α)) :
    (points axes none).length = size axes ∧
    (∀ (k : Nat) (point : List (String × α)), (points axes none)[k]? = some point →
      (point.map Prod.fst).Nodup ∧
      (∀ name, name ∈ point.map Prod.fst ↔ name ∈ axes.map Prod.fst) ∧
      ∀ (i : Nat) (axis : String × List α), axes[i]? = some axis →
        axis.1 ∉ (axes.drop (i + 1)).map Prod.fst →
        ∃ v, axis.2[k / size (axes.drop (i + 1)) % axis.2.length]? = some v ∧
          point.lookup axis.1 = some v) ∧
    ∀ test, points axes (some test) = (points axes none).filter test := by
  rw [points_none]
  refine ⟨by rw [List.length_map, length_product], fun k point hk => ?_, fun test => ?_⟩
  · rw [List.getElem?_map] at hk
    obtain ⟨choices, hchoices, rfl⟩ := Option.map_eq_some_iff.1 hk
    have hnames := names_of_mem_product (List.mem_of_getElem? hchoices)
    refine ⟨Json.nodup_keys_collect choices, fun name => ?_, fun i axis hi hlast => ?_⟩
    · rw [Json.mem_keys_collect, hnames]
    · obtain ⟨v, hv, hchoice⟩ := getElem?_product hchoices hi
      refine ⟨v, hv, lookup_collect_of_getElem? hchoice ?_⟩
      rwa [List.map_drop, hnames, ← List.map_drop]
  · rw [points_some, points_none]

/-- Axes of which the last one has the name of the first one. -/
def twiceNamed : List (String × List Nat) := [("a", [1, 2]), ("b", [3, 4, 5]), ("a", [6, 7])]

theorem points_by_number_twiceNamed :
    (points twiceNamed none).length = 12 ∧
      (points twiceNamed none)[9]? = some [("a", 7), ("b", 4)] ∧
      (∃ v, [3, 4, 5][9 / 2 % 3]? = some v ∧ [("a", 7), ("b", 4)].lookup "b" = some v) ∧
      ∃ v, [6, 7][9 / 1 % 2]? = some v ∧ [("a", 7), ("b", 4)].lookup "a" = some v :=
  have hpoint : (points twiceNamed none)[9]? = some [("a", 7), ("b", 4)] := by decide
  have hdigits := (points_by_number twiceNamed).2.1 9 _ hpoint
  ⟨(points_by_number twiceNamed).1, hpoint, hdigits.2.2 1 _ rfl (by decide),
    hdigits.2.2 2 _ rfl (by decide)⟩

end AppPipeline.Matrix
