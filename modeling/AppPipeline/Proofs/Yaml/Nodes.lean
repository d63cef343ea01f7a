import AppPipeline.Proofs.Yaml.Tokens
import AppPipeline.Yaml.Node

/-!
# Nodes of written data

The tokens of written data are read as one node, with nothing left over
(`document_tokens`). Its texts are those that are read back.
-/

namespace AppPipeline.Yaml

/-! ## Nodes -/

mutual

/-- The node that written data are read as. -/
def writtenNode : Json → Node
  | .str s => .scalar .text (readBack s.toList)
  | .list xs => .list .list (writtenItems xs)
  | .object es => .map .map (writtenEntries es)
  | j => .scalar (Tag.ofKind (Plain.kind (plainScalar j))) (plainScalar j)
termination_by structural j => j

def writtenItems : List Json → List Node
  | [] => []
  | x :: xs => writtenNode x :: writtenItems xs
termination_by structural xs => xs

def writtenEntries : List (String × Json) → List (Node × Node)
  | [] => []
  | (k, v) :: es => (.scalar .text (readBack k.toList), writtenNode v) :: writtenEntries es
termination_by structural es => es

end

variable {j : Json} {xs : List Json} {es : List (String × Json)} {own bare : Bool}
variable {handles : List (String × String)} {level left n : Nat}
variable {t : Token} {ts us rest rest' : List Token} {anchors : List String}

theorem writtenNode_bare (h : IsBare j) :
    writtenNode j = .scalar (Tag.ofKind (Plain.kind (plainScalar j))) (plainScalar j) := by
  cases j <;> first | rfl | exact absurd h id

/-! ## First tokens -/

/-- Tokens that begin a value without an anchor and a tag. -/
def beginsValue : Token → Bool
  | .scalar _ _ => true
  | .flowSequence => true
  | .flowMapping => true
  | .blockSequence => true
  | .blockMapping => true
  | .blockEntry => true
  | _ => false

theorem exists_valueTokens (own : Bool) (j : Json) :
    ∃ t ts, valueTokens own j = t :: ts ∧ beginsValue t = true ∧
      (t = .blockEntry → own = true) := by
  cases j with
  | list xs =>
    by_cases hxs : xs = []
    · subst hxs
      exact ⟨_, _, rfl, rfl, fun h => by cases h⟩
    · rw [valueTokens_list hxs]
      cases own with
      | false => exact ⟨_, _, rfl, rfl, fun h => by cases h⟩
      | true =>
        obtain ⟨x, xs, rfl⟩ := List.exists_cons_of_ne_nil hxs
        exact ⟨_, _, rfl, rfl, fun _ => rfl⟩
  | object es =>
    by_cases hes : es = []
    · subst hes
      exact ⟨_, _, rfl, rfl, fun h => by cases h⟩
    · rw [valueTokens_object hes]
      exact ⟨_, _, rfl, rfl, fun h => by cases h⟩
  | _ => exact ⟨_, _, rfl, rfl, fun h => by cases h⟩

theorem length_valueTokens_pos (own : Bool) (j : Json) : 0 < (valueTokens own j).length := by
  obtain ⟨t, ts, h, -⟩ := exists_valueTokens own j
  rw [h]
  exact Nat.succ_pos _

/-- A node without an anchor and a tag is its content. -/
theorem read_eq_content (ht : beginsValue t = true) :
    Node.read handles true bare level (n + 1) ⟨t :: ts, anchors⟩
      = Node.content handles true bare level n false none ⟨t :: ts, anchors⟩ := by
  have hend : ∀ r : Except ReadFault (Node × Node.Source), (r >>= fun y => .ok (y.1, y.2)) = r := by
    intro r
    cases r <;> rfl
  cases t <;> first
    | exact hend _
    | cases ht

theorem not_endsPart (ht : beginsValue t = true) : Node.endsPart (t :: ts) = false := by
  cases t <;> first
    | rfl
    | cases ht

theorem not_endsItem (ht : beginsValue t = true) (hentry : t ≠ .blockEntry) :
    Node.endsItem (t :: ts) = false := by
  cases t <;> first
    | rfl
    | exact absurd rfl hentry
    | cases ht

/-! ## Reading -/

/-- The tokens of the value are read as its node, whatever follows. -/
def Reads (j : Json) : Prop :=
  ∀ {own bare handles level left rest anchors}, (own = true → bare = true) →
    (own = true → rest.head? ≠ some Token.blockEntry) → j.levels ≤ level →
    3 * (valueTokens own j).length < left →
    Node.read handles true bare level left ⟨valueTokens own j ++ rest, anchors⟩
      = .ok (writtenNode j, ⟨rest, anchors⟩)

theorem not_endsItem_valueTokens (j : Json) (ts : List Token) :
    Node.endsItem (valueTokens false j ++ ts) = false := by
  obtain ⟨t, us, htokens, hbegins, hentry⟩ := exists_valueTokens false j
  rw [htokens, List.cons_append]
  exact not_endsItem hbegins fun h => Bool.noConfusion (hentry h)

theorem not_endsPart_valueTokens (own : Bool) (j : Json) (ts : List Token) :
    Node.endsPart (valueTokens own j ++ ts) = false := by
  obtain ⟨t, us, htokens, hbegins, -⟩ := exists_valueTokens own j
  rw [htokens, List.cons_append]
  exact not_endsPart hbegins

/-- The items of a list are read up to its end. -/
theorem read_items (h : ∀ x ∈ xs, Reads x)
    (hend : ∀ m, Node.items handles level (m + 1) bare ⟨rest, anchors⟩
      = .ok ([], ⟨rest', anchors⟩))
    (hlevel : Json.itemLevels xs ≤ level) (hpos : 0 < left)
    (hleft : 3 * (itemTokens xs).length < left + 2) :
    Node.items handles level left bare ⟨itemTokens xs ++ rest, anchors⟩
      = .ok (writtenItems xs, ⟨rest', anchors⟩) := by
  induction xs generalizing left with
  | nil =>
    obtain ⟨m, rfl⟩ : ∃ m, left = m + 1 := ⟨left - 1, by omega⟩
    exact hend m
  | cons x xs ih =>
    obtain ⟨m, rfl⟩ : ∃ m, left = m + 1 := ⟨left - 1, by omega⟩
    have htokens : itemTokens (x :: xs) ++ rest
        = .blockEntry :: (valueTokens false x ++ (itemTokens xs ++ rest)) := by
      rw [itemTokens, List.append_assoc, List.cons_append]
    have hlength : (itemTokens (x :: xs)).length
        = (valueTokens false x).length + (itemTokens xs).length + 1 := by
      rw [itemTokens, List.cons_append, List.length_cons, List.length_append]
    have hpositive := length_valueTokens_pos false x
    rw [Json.itemLevels, Nat.max_le] at hlevel
    have hitem : Node.read handles true false level m
        ⟨valueTokens false x ++ (itemTokens xs ++ rest), anchors⟩
          = .ok (writtenNode x, ⟨itemTokens xs ++ rest, anchors⟩) :=
      h x List.mem_cons_self Bool.noConfusion Bool.noConfusion hlevel.1 (by omega)
    have hitems : Node.items handles level m bare ⟨itemTokens xs ++ rest, anchors⟩
        = .ok (writtenItems xs, ⟨rest', anchors⟩) :=
      ih (fun y hy => h y (List.mem_cons_of_mem x hy)) hlevel.2 (by omega) (by omega)
    rw [htokens]
    show (if Node.endsItem _ then _ else Node.read handles true false level m
      ⟨valueTokens false x ++ (itemTokens xs ++ rest), anchors⟩ >>= _) = _
    rw [not_endsItem_valueTokens, if_neg Bool.false_ne_true, hitem]
    show Node.items handles level m bare ⟨itemTokens xs ++ rest, anchors⟩ >>= _ = _
    rw [hitems]
    rfl

theorem read_text {s : List Char} :
    Node.read handles true bare level (n + 2) ⟨textToken s :: ts, anchors⟩
      = .ok (.scalar .text (readBack s), ⟨ts, anchors⟩) := by
  have htag : Node.scalarTag none (styleOf false s == .plain) (readBack s) = .text := by
    cases hstyle : styleOf false s with
    | plain =>
      have hfits := fits_styleOf false s
      rw [hstyle] at hfits
      have hkind : Plain.kind s = .text := beq_iff_eq.1 hfits.1
      rw [readBack, hstyle]
      show Tag.ofKind (Plain.kind s) = .text
      rw [hkind]
      rfl
    | _ => rfl
  rw [textToken, read_eq_content rfl]
  show Except.ok (Node.scalar (Node.scalarTag none _ _) _, _) = _
  rw [htag]
  rfl

/-- The key and the value of an entry are read behind the mark of the entry. -/
theorem read_entry {k : String} {v : Json} (h : Reads v) (hrest : rest.head? ≠ some .blockEntry)
    (hlevel : v.levels ≤ level)
    (hleft : 3 * (valueTokens (isSimpleKey k.toList) v).length < n + 2) :
    Node.entry handles true level (n + 3)
        ⟨textToken k.toList :: .value :: (valueTokens (isSimpleKey k.toList) v ++ rest), anchors⟩
      = .ok ((.scalar .text (readBack k.toList), writtenNode v), ⟨rest, anchors⟩) := by
  have hvalue : Node.read handles true true level (n + 2)
      ⟨valueTokens (isSimpleKey k.toList) v ++ rest, anchors⟩
        = .ok (writtenNode v, ⟨rest, anchors⟩) := h (fun _ => rfl) (fun _ => hrest) hlevel hleft
  show Node.read handles true true level (n + 2) ⟨textToken k.toList :: _, anchors⟩ >>= _ = _
  rw [read_text]
  show (if Node.endsPart _ then _ else Node.read handles true true level (n + 2)
    ⟨valueTokens (isSimpleKey k.toList) v ++ rest, anchors⟩ >>= _) = _
  rw [not_endsPart_valueTokens, if_neg Bool.false_ne_true, hvalue]
  rfl

/-- The entries of a mapping are read up to its end. -/
theorem read_entries (h : ∀ e ∈ es, Reads e.2) (hlevel : Json.fieldLevels es ≤ level)
    (hpos : 0 < left) (hleft : 3 * (entryTokens es).length < left + 2) :
    Node.entries handles level left ⟨entryTokens es ++ .blockEnd :: rest, anchors⟩
      = .ok (writtenEntries es, ⟨rest, anchors⟩) := by
  induction es generalizing left with
  | nil =>
    obtain ⟨m, rfl⟩ : ∃ m, left = m + 1 := ⟨left - 1, by omega⟩
    rfl
  | cons e es ih =>
    obtain ⟨k, v⟩ := e
    have hlength : (entryTokens ((k, v) :: es)).length
        = (valueTokens (isSimpleKey k.toList) v).length + (entryTokens es).length + 3 := by
      rw [entryTokens, List.cons_append, List.cons_append, List.cons_append, List.length_cons,
        List.length_cons, List.length_cons, List.length_append]
    have hpositive := length_valueTokens_pos (isSimpleKey k.toList) v
    obtain ⟨m, rfl⟩ : ∃ m, left = m + 4 := ⟨left - 4, by omega⟩
    rw [Json.fieldLevels, Nat.max_le] at hlevel
    have htokens : entryTokens ((k, v) :: es) ++ .blockEnd :: rest
        = .key :: textToken k.toList :: .value :: (valueTokens (isSimpleKey k.toList) v
          ++ (entryTokens es ++ .blockEnd :: rest)) := by
      rw [entryTokens, List.append_assoc]
      rfl
    have hnext : (entryTokens es ++ Token.blockEnd :: rest).head? ≠ some .blockEntry := by
      cases es with
      | nil => simp [entryTokens]
      | cons e es => simp [entryTokens]
    have hentries : Node.entries handles level (m + 3)
        ⟨entryTokens es ++ .blockEnd :: rest, anchors⟩
          = .ok (writtenEntries es, ⟨rest, anchors⟩) :=
      ih (fun f hf => h f (List.mem_cons_of_mem _ hf)) hlevel.2 (by omega) (by omega)
    have hvalue : 3 * (valueTokens (isSimpleKey k.toList) v).length < m + 2 := by omega
    rw [htokens]
    show Node.entry handles true level (m + 3) ⟨textToken k.toList :: _, anchors⟩ >>= _ = _
    rw [read_entry (h (k, v) List.mem_cons_self) hnext hlevel.1 hvalue]
    show Node.entries handles level (m + 3) ⟨entryTokens es ++ .blockEnd :: rest, anchors⟩ >>= _ = _
    rw [hentries]
    rfl

/-! ## Collections -/

theorem content_sequence : Node.content handles true bare (level + 1) (n + 1) false none
      ⟨.blockSequence :: ts, anchors⟩
    = Node.items handles level n false ⟨ts, anchors⟩ >>= fun y => .ok (.list .list y.1, y.2) := by
  cases bare <;> rfl

theorem content_entry : Node.content handles true true (level + 1) (n + 1) false none
      ⟨.blockEntry :: ts, anchors⟩
    = Node.items handles level n true ⟨.blockEntry :: ts, anchors⟩ >>= fun y =>
      .ok (.list .list y.1, y.2) := rfl

theorem content_mapping : Node.content handles true bare (level + 1) (n + 1) false none
      ⟨.blockMapping :: ts, anchors⟩
    = Node.entries handles level n ⟨ts, anchors⟩ >>= fun y => .ok (.map .map y.1, y.2) := by
  cases bare <;> rfl

/-- A list without an end of its own ends where no item stands. -/
theorem items_end (h : rest.head? ≠ some .blockEntry) :
    Node.items handles level (n + 1) true ⟨rest, anchors⟩ = .ok ([], ⟨rest, anchors⟩) := by
  cases rest with
  | nil => rfl
  | cons t ts => cases t <;> first | rfl | exact absurd rfl h

theorem reads_bare (h : IsBare j) : Reads j := by
  intro own bare handles level left rest anchors _ _ _ hleft
  rw [valueTokens_bare h] at hleft ⊢
  rw [List.length_singleton] at hleft
  obtain ⟨n, rfl⟩ : ∃ n, left = n + 2 := ⟨left - 2, by omega⟩
  rw [List.singleton_append, read_eq_content rfl, writtenNode_bare h]
  rfl

theorem reads_text (s : String) : Reads (.str s) := by
  intro own bare handles level left rest anchors _ _ _ hleft
  have hone : (valueTokens own (.str s)).length = 1 := rfl
  obtain ⟨n, rfl⟩ : ∃ n, left = n + 2 := ⟨left - 2, by omega⟩
  exact read_text

/-- A list behind its own key has no tokens for its start and its end. -/
theorem reads_list (hxs : xs ≠ []) (h : ∀ x ∈ xs, Reads x) : Reads (.list xs) := by
  intro own bare handles level left rest anchors hbare hrest hlevel hleft
  rw [Json.levels] at hlevel
  obtain ⟨l, rfl⟩ : ∃ l, level = l + 1 := ⟨level - 1, by omega⟩
  rw [valueTokens_list hxs] at hleft ⊢
  cases own with
  | false =>
    rw [if_neg Bool.false_ne_true] at hleft ⊢
    rw [List.length_append, List.length_cons, List.length_singleton] at hleft
    obtain ⟨n, rfl⟩ : ∃ n, left = n + 2 := ⟨left - 2, by omega⟩
    rw [List.append_assoc, List.cons_append, read_eq_content rfl, content_sequence,
      List.singleton_append, read_items h (fun _ => rfl) (by omega) (by omega) (by omega)]
    rfl
  | true =>
    obtain rfl := hbare rfl
    rw [if_pos rfl] at hleft ⊢
    obtain ⟨ts, hts⟩ : ∃ ts, itemTokens xs = .blockEntry :: ts := by
      obtain ⟨x, xs, rfl⟩ := List.exists_cons_of_ne_nil hxs
      exact ⟨_, rfl⟩
    have hpos : 0 < (itemTokens xs).length := by
      rw [hts]
      exact Nat.succ_pos _
    obtain ⟨n, rfl⟩ : ∃ n, left = n + 2 := ⟨left - 2, by omega⟩
    have hitems : Node.items handles l n true ⟨itemTokens xs ++ rest, anchors⟩ = _ :=
      read_items h (fun m => items_end (hrest rfl)) (by omega) (by omega) (by omega)
    rw [hts, List.cons_append] at hitems ⊢
    rw [read_eq_content rfl, content_entry, hitems]
    rfl

theorem reads_object (hes : es ≠ []) (h : ∀ e ∈ es, Reads e.2) : Reads (.object es) := by
  intro own bare handles level left rest anchors _ _ hlevel hleft
  rw [Json.levels] at hlevel
  obtain ⟨l, rfl⟩ : ∃ l, level = l + 1 := ⟨level - 1, by omega⟩
  rw [valueTokens_object hes] at hleft ⊢
  rw [List.length_append, List.length_cons, List.length_singleton] at hleft
  obtain ⟨n, rfl⟩ : ∃ n, left = n + 2 := ⟨left - 2, by omega⟩
  rw [List.append_assoc, List.cons_append, read_eq_content rfl, content_mapping,
    List.singleton_append, read_entries h (by omega) (by omega) (by omega)]
  rfl

/-- A collection without parts is read from its two brackets. -/
theorem reads_empty (h : j = .list [] ∨ j = .object []) : Reads j := by
  intro own bare handles level left rest anchors _ _ hlevel hleft
  have hone := Json.one_le_levels j
  have htwo : (valueTokens own j).length = 2 := by rcases h with rfl | rfl <;> rfl
  obtain ⟨l, rfl⟩ : ∃ l, level = l + 1 := ⟨level - 1, by omega⟩
  obtain ⟨n, rfl⟩ : ∃ n, left = n + 3 := ⟨left - 3, by omega⟩
  rcases h with rfl | rfl <;> rfl

/-- The tokens of written data are read as their node. -/
theorem Legible.reads (h : Legible j) : Reads j := by
  induction h with
  | bare h => exact reads_bare h
  | @text s _ => exact reads_text s
  | @list xs _ ih =>
    by_cases hxs : xs = []
    · exact reads_empty (.inl (congrArg Json.list hxs))
    · exact reads_list hxs ih
  | @object es _ _ _ ih =>
    by_cases hes : es = []
    · exact reads_empty (.inr (congrArg Json.object hes))
    · exact reads_object hes ih

/-- The tokens of a document are read as the node of its data. -/
theorem document_tokens (h : Legible j) (hlevels : j.levels ≤ Node.deepest)
    (hus : us = [] ∨ us = [Token.documentEnd]) :
    Node.document (valueTokens false j ++ us) = .ok (writtenNode j) := by
  have hread : Node.read ([] ++ Node.commonHandles) true false Node.deepest
      (3 * (valueTokens false j ++ us).length + 3) ⟨valueTokens false j ++ us, []⟩
        = .ok (writtenNode j, ⟨us, []⟩) :=
    h.reads Bool.noConfusion Bool.noConfusion hlevels (by rw [List.length_append]; omega)
  have hend : Node.endsText us = .ok () := by
    rcases hus with rfl | rfl <;> rfl
  obtain ⟨t, ts, htokens, hbegins, -⟩ := exists_valueTokens false j
  have hsome : Node.isEmptyDocument (valueTokens false j ++ us) = false := by
    rw [htokens]
    cases t <;> first | rfl | cases hbegins
  have hbody : Node.document (valueTokens false j ++ us)
      = Node.body [] (valueTokens false j ++ us) := by
    rw [htokens, List.cons_append] at hsome ⊢
    rw [Node.document, hsome]
    · rfl
    · exact List.cons_ne_nil t _
    · intro ts' he
      obtain ⟨rfl, -⟩ := List.cons.inj he
      cases hbegins
  rw [hbody, Node.body, hsome]
  show Node.read _ true false Node.deepest _ ⟨valueTokens false j ++ us, []⟩ >>= _ = _
  rw [hread]
  show Node.endsText us >>= _ = _
  rw [hend]
  rfl

end AppPipeline.Yaml
