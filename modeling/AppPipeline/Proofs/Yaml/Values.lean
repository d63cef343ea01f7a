import AppPipeline.Proofs.Yaml.Nodes
import AppPipeline.Yaml.Tree

/-!
# Values of written data

The node of written data has no alias and no merge, and its keys are different texts; so its
value is that of the data as they are read back (`Legible.value_writtenNode`).
-/

namespace AppPipeline

/-! ## Different keys -/

namespace Value

theorem put_append {key : Key} {v : Value} {entries : List (Key × Value)}
    (h : ∀ e ∈ entries, key.same e.1 = false) : put key v entries = entries ++ [(key, v)] := by
  induction entries with
  | nil => rfl
  | cons e es ih =>
    rw [put, h e List.mem_cons_self, if_neg Bool.false_ne_true,
      ih fun f hf => h f (List.mem_cons_of_mem e hf)]
    rfl

/-- Entries with different keys stay as they are. -/
theorem collect_eq_map {entries : List (Key × Value)}
    (h : entries.Pairwise fun e f => f.1.same e.1 = false) :
    collect entries = entries.map fun e => (e.1.value, e.2) := by
  have hfold : ∀ (acc : List (Key × Value)), (acc ++ entries).Pairwise (fun e f =>
      f.1.same e.1 = false) →
        entries.foldl (fun acc e => put e.1 e.2 acc) acc = acc ++ entries := by
    clear h
    induction entries with
    | nil => exact fun acc _ => (List.append_nil acc).symm
    | cons e es ih =>
      intro acc h
      have hput : put e.1 e.2 acc = acc ++ [e] :=
        put_append fun f hf => (List.pairwise_append.1 h).2.2 f hf e List.mem_cons_self
      rw [List.foldl_cons, hput, ih _ (by rwa [List.append_assoc]), List.append_assoc]
      rfl
  rw [collect, hfold [] h, List.nil_append]

theorem same_text {s t : String} {m n : Nat} (h : s ≠ t) :
    Key.same ⟨.text s, m⟩ ⟨.text t, n⟩ = false := by
  have hplain : sameKey (.text s) (.text t) = false := beq_false_of_ne h
  rw [Key.same, hplain]
  rfl

end Value

namespace Json

/-! ## Data as they are read back -/

/-- The text as it is read back. -/
def readBackText (s : String) : String := String.ofList (Yaml.readBack s.toList)

mutual

/-- The data as they are read back from their text. -/
def readBack : Json → Json
  | .str s => .str (readBackText s)
  | .list xs => .list (readBackItems xs)
  | .object es => .object (readBackFields es)
  | j => j
termination_by structural j => j

def readBackItems : List Json → List Json
  | [] => []
  | x :: xs => readBack x :: readBackItems xs
termination_by structural xs => xs

def readBackFields : List (String × Json) → List (String × Json)
  | [] => []
  | (k, v) :: es => (readBackText k, readBack v) :: readBackFields es
termination_by structural es => es

end

theorem readBackItems_eq_map (xs : List Json) : readBackItems xs = xs.map readBack := by
  induction xs with
  | nil => rfl
  | cons x xs ih => rw [readBackItems, ih, List.map_cons]

theorem readBackFields_eq_map (es : List (String × Json)) :
    readBackFields es = es.map fun e => (readBackText e.1, e.2.readBack) := by
  induction es with
  | nil => rfl
  | cons e es ih =>
    obtain ⟨k, v⟩ := e
    rw [readBackFields, ih, List.map_cons]

end Json

namespace Yaml

variable {j : Json} {xs : List Json} {es : List (String × Json)} {n depth left : Nat}

/-! ## Nodes without aliases and merges -/

theorem writtenItems_eq_map (xs : List Json) : writtenItems xs = xs.map writtenNode := by
  induction xs with
  | nil => rfl
  | cons x xs ih => rw [writtenItems, ih, List.map_cons]

theorem writtenEntries_eq_map (es : List (String × Json)) : writtenEntries es
    = es.map fun e => (.scalar .text (readBack e.1.toList), writtenNode e.2) := by
  induction es with
  | nil => rfl
  | cons e es ih =>
    obtain ⟨k, v⟩ := e
    rw [writtenEntries, ih, List.map_cons]

theorem trees?_writtenItems (h : ∀ x ∈ xs, (writtenNode x).tree? = some (writtenNode x)) :
    Node.trees? (writtenItems xs) = some (writtenItems xs) := by
  induction xs with
  | nil => rfl
  | cons x xs ih =>
    rw [writtenItems, Node.trees?, h x List.mem_cons_self,
      ih fun y hy => h y (List.mem_cons_of_mem x hy)]

theorem entryTrees?_writtenEntries
    (h : ∀ e ∈ es, (writtenNode e.2).tree? = some (writtenNode e.2)) :
    Node.entryTrees? (writtenEntries es) = some (writtenEntries es) := by
  induction es with
  | nil => rfl
  | cons e es ih =>
    rw [writtenEntries, Node.entryTrees?, h e List.mem_cons_self,
      ih fun f hf => h f (List.mem_cons_of_mem e hf)]
    rfl

/-- The node of written data has no anchor and no alias. -/
theorem Legible.tree?_writtenNode (h : Legible j) :
    (writtenNode j).tree? = some (writtenNode j) := by
  induction h with
  | bare h => rw [writtenNode_bare h]; rfl
  | text => rfl
  | list _ ih => rw [writtenNode, Node.tree?, trees?_writtenItems ih]; rfl
  | object _ _ _ ih => rw [writtenNode, Node.tree?, entryTrees?_writtenEntries ih]; rfl

/-- No text asks for a merge. -/
theorem merged_texts {es : List (Node × Node)} (h : ∀ e ∈ es, ∃ s, e.1 = .scalar .text s) :
    Node.merged (n + 1) es = some es := by
  have hnone : (es.filter fun e => e.1.isMerge) = [] := by
    rw [List.filter_eq_nil_iff]
    intro e he
    obtain ⟨s, hs⟩ := h e he
    rw [hs]
    exact Bool.false_ne_true
  have hall : (es.filter fun e => !e.1.isMerge) = es := by
    rw [List.filter_eq_self]
    intro e he
    obtain ⟨s, hs⟩ := h e he
    rw [hs]
    rfl
  have hkeys : (es.map fun e => (e.1.asKey, e.2)) = es := by
    refine (List.map_congr_left fun e he => ?_).trans (List.map_id es)
    obtain ⟨s, hs⟩ := h e he
    show (e.1.asKey, e.2) = e
    rw [show e.1.asKey = e.1 by rw [hs]; rfl]
  rw [Node.merged, hnone, hall, hkeys]
  rfl

/-- The value of a mapping with texts as keys. -/
theorem value_map {es : List (Node × Node)} (h : ∀ e ∈ es, ∃ s, e.1 = .scalar .text s) :
    (Node.map .map es).value (n + 2) depth
      = ((Outcome.all (es.zipIdx.map fun e => Outcome.both Prod.mk
          (Node.keyOutcome (depth + 1) e.2 e.1.1 (e.1.1.value (n + 1) (depth + 1)))
          (e.1.2.value (n + 1) (depth + 1)))).map Value.collect).map Value.map := by
  rw [Node.value]
  · dsimp only
    rw [merged_texts h]
  · rfl

theorem ofTag_scalar {tag : Tag} {s : List Char} {v : Value} (h : scalarValue tag s = .ok v) :
    (Node.scalar tag s).ofTag tag = .ok v := by
  cases tag <;> exact h

theorem value_scalar {tag : Tag} {s : List Char} {v : Value} (h : scalarValue tag s = .ok v) :
    (Node.scalar tag s).value (n + 1) depth = .ok v := by
  have htag : tag.isScalar = true := by
    cases tag <;> first | rfl | cases h
  have hvalue := ofTag_scalar h
  cases tag <;> first
    | exact absurd htag (by decide)
    | simp [Node.value, Node.tag?, Tag.isCollection, hvalue]

theorem all_map_ok {α β : Type} {f : α → Outcome β} {g : α → β} {xs : List α}
    (h : ∀ x ∈ xs, f x = .ok (g x)) : Outcome.all (xs.map f) = .ok (xs.map g) := by
  induction xs with
  | nil => rfl
  | cons x xs ih =>
    rw [List.map_cons, List.map_cons, Outcome.all, h x List.mem_cons_self,
      ih fun y hy => h y (List.mem_cons_of_mem x hy)]
    rfl

/-! ## Values -/

/-- An entry of a mapping, with its key as it is read. -/
def readEntry (e : (String × Json) × Nat) : Value.Key × Value :=
  (⟨.text (Json.readBackText e.1.1), keyOrigin e.2 (readBack e.1.1.toList)⟩,
    Value.ofJson e.1.2.readBack)

theorem collect_readEntry (h : (es.map fun e => readBack e.1.toList).Nodup) :
    Value.collect (es.zipIdx.map readEntry) = Value.ofFields (Json.readBackFields es) := by
  have hkeys : (es.zipIdx.map readEntry).Pairwise fun e f => f.1.same e.1 = false := by
    rw [List.pairwise_map]
    have hpairs : es.zipIdx.Pairwise fun e f => readBack e.1.1.toList ≠ readBack f.1.1.toList := by
      rw [← List.zipIdx_map_fst 0 es, List.map_map, List.Nodup, List.pairwise_map] at h
      exact h
    refine hpairs.imp fun hne => Value.same_text fun he => hne ?_
    exact (String.ofList_inj.1 he).symm
  rw [Value.collect_eq_map hkeys, List.map_map, Value.ofFields_eq_map, Json.readBackFields_eq_map,
    List.map_map]
  conv_rhs => rw [← List.zipIdx_map_fst 0 es, List.map_map]
  rfl

/-- The value of a written list is that of its items. -/
theorem value_items (h : ∀ x ∈ xs,
    (writtenNode x).value n (depth + 1) = .ok (Value.ofJson x.readBack)) :
    (writtenNode (.list xs)).value (n + 1) depth
      = .ok (Value.ofJson (Json.readBack (.list xs))) := by
  have hitems : Outcome.all (xs.map fun x => (writtenNode x).value n (depth + 1))
      = .ok (xs.map fun x => Value.ofJson x.readBack) := all_map_ok h
  show (Outcome.all ((writtenItems xs).map fun y => y.value n (depth + 1))).map Value.list = _
  rw [writtenItems_eq_map, List.map_map]
  show (Outcome.all (xs.map fun x => (writtenNode x).value n (depth + 1))).map Value.list = _
  rw [hitems, Json.readBack, Value.ofJson, Value.ofItems_eq_map, Json.readBackItems_eq_map,
    List.map_map]
  rfl

/-- The value of a written mapping is that of its entries, whose keys stay different. -/
theorem value_entries (hdistinct : (es.map fun e => readBack e.1.toList).Nodup)
    (h : ∀ e ∈ es,
      (writtenNode e.2).value (n + 1) (depth + 1) = .ok (Value.ofJson e.2.readBack)) :
    (writtenNode (.object es)).value (n + 2) depth
      = .ok (Value.ofJson (Json.readBack (.object es))) := by
  have htexts : ∀ e ∈ writtenEntries es, ∃ s, e.1 = .scalar .text s := by
    intro e he
    rw [writtenEntries_eq_map] at he
    obtain ⟨f, -, rfl⟩ := List.mem_map.1 he
    exact ⟨_, rfl⟩
  have hentries : ∀ e ∈ es.zipIdx,
      Outcome.both Prod.mk
        (Node.keyOutcome (depth + 1) e.2 (.scalar .text (readBack e.1.1.toList))
          (.ok (.text (Json.readBackText e.1.1))))
        ((writtenNode e.1.2).value (n + 1) (depth + 1)) = .ok (readEntry e) := by
    intro e he
    rw [h e.1 (List.fst_mem_of_mem_zipIdx he)]
    rfl
  rw [writtenNode, value_map htexts, writtenEntries_eq_map, List.zipIdx_map, List.map_map]
  show ((Outcome.all (es.zipIdx.map fun e => Outcome.both Prod.mk
    (Node.keyOutcome (depth + 1) e.2 (.scalar .text (readBack e.1.1.toList))
      (.ok (.text (Json.readBackText e.1.1))))
    ((writtenNode e.1.2).value (n + 1) (depth + 1)))).map Value.collect).map Value.map = _
  rw [all_map_ok hentries]
  show Except.ok (Value.map (Value.collect (es.zipIdx.map readEntry))) = _
  rw [collect_readEntry hdistinct]
  rfl

/-- Written data have the value of the data as they are read back. -/
theorem Legible.value_writtenNode (h : Legible j) (hleft : j.levels < left) (depth : Nat) :
    (writtenNode j).value left depth = .ok (Value.ofJson j.readBack) := by
  induction h generalizing left depth with
  | @bare j h =>
    obtain ⟨n, rfl⟩ : ∃ n, left = n + 1 := ⟨left - 1, by omega⟩
    have hsame : j.readBack = j := by cases j <;> first | rfl | exact absurd h id
    rw [writtenNode_bare h, hsame]
    exact value_scalar (scalarValue_plainScalar h)
  | text =>
    obtain ⟨n, rfl⟩ : ∃ n, left = n + 1 := ⟨left - 1, by omega⟩
    rfl
  | @list xs _ ih =>
    obtain ⟨n, rfl⟩ : ∃ n, left = n + 1 := ⟨left - 1, by omega⟩
    rw [Json.levels] at hleft
    refine value_items fun x hx => ih x hx ?_ (depth + 1)
    have := Json.levels_le_itemLevels hx
    omega
  | @object es _ hdistinct _ ih =>
    have hone := Json.one_le_levels (.object es)
    obtain ⟨n, rfl⟩ : ∃ n, left = n + 2 := ⟨left - 2, by omega⟩
    rw [Json.levels] at hleft
    refine value_entries hdistinct fun e he => ih e he ?_ (depth + 1)
    have := Json.levels_le_fieldLevels he
    omega

end Yaml

end AppPipeline
