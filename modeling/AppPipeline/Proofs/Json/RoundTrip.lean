import AppPipeline.Proofs.Json.Fields
import AppPipeline.Proofs.Json.Texts

/-!
# Written data are read back

`IsStorable` holds of data without numbers whose texts are sound and whose objects
have different keys. Such data, written with an item a line, are read back, whatever
stands behind them (`IsStorable.reads`); so the written text of data that are not
nested too deeply is read as the data (`parse_indentedText`). The written text
consists of printable ASCII characters and line feeds (`IsStorable.isPrinted`).
-/

namespace AppPipeline.Json

/-! ## Storable data -/

inductive IsStorable : Json → Prop
  | null : IsStorable .null
  | bool (b : Bool) : IsStorable (.bool b)
  | str {s : String} (sound : Text.IsSound s) : IsStorable (.str s)
  | list {items : List Json} (all : ∀ j ∈ items, IsStorable j) : IsStorable (.list items)
  | object {fields : List (String × Json)} (keys : (fields.map Prod.fst).Nodup)
      (sound : ∀ f ∈ fields, Text.IsSound f.1) (all : ∀ f ∈ fields, IsStorable f.2) :
      IsStorable (.object fields)

/-! ## Gaps and beginnings -/

/-- The text begins with a character that is neither a gap nor the end of a list. -/
def BeginsValue (s : List Char) : Prop := ∃ c rest, s = c :: rest ∧ isGap c = false ∧ c ≠ ']'

theorem BeginsValue.append {s : List Char} (h : BeginsValue s) (t : List Char) :
    BeginsValue (s ++ t) := by
  obtain ⟨c, rest, rfl, hc⟩ := h
  exact ⟨c, rest ++ t, rfl, hc⟩

theorem skipGaps_cons {c : Char} (hc : isGap c = false) (s : List Char) :
    skipGaps (c :: s) = c :: s := by
  rw [skipGaps, List.dropWhile_cons, hc]
  rfl

theorem BeginsValue.skipGaps_eq {s : List Char} (h : BeginsValue s) : skipGaps s = s := by
  obtain ⟨c, rest, rfl, hc, _⟩ := h
  exact skipGaps_cons hc rest

theorem skipGaps_newLine (depth : Nat) (s : List Char) :
    skipGaps (newLine depth ++ s) = skipGaps s := by
  refine List.dropWhile_append_of_pos fun c hc => ?_
  rw [newLine, List.mem_cons, List.mem_replicate] at hc
  rcases hc with rfl | ⟨_, rfl⟩ <;> decide

theorem beginsValue_writtenText (s : String) : BeginsValue (writtenText s) :=
  ⟨'"', _, rfl, by decide, by decide⟩

theorem IsStorable.beginsValue {j : Json} (h : IsStorable j) (sp : Spacing) (depth : Nat) :
    BeginsValue (written sp depth j) := by
  cases h with
  | null => exact ⟨'n', _, rfl, by decide, by decide⟩
  | bool b =>
    cases b with
    | false => exact ⟨'f', _, rfl, by decide, by decide⟩
    | true => exact ⟨'t', _, rfl, by decide, by decide⟩
  | str sound => exact beginsValue_writtenText _
  | @list items all => cases items <;> exact ⟨'[', _, rfl, by decide, by decide⟩
  | @object fields keys sound all => cases fields <;> exact ⟨'\x7b', _, rfl, by decide, by decide⟩

/-! ## Reading -/

/-- The written value is read, whatever stands behind it. -/
def Reads (j : Json) : Prop :=
  ∀ (depth level left : Nat) (rest : List Char), j.levels ≤ level →
    2 * (written .indented depth j ++ rest).length < left →
    parseValue level left (written .indented depth j ++ rest) = .ok (j, rest)

theorem writtenItems_cons (depth : Nat) (x : Json) (xs : List Json) (tail : List Char) :
    writtenItems .indented depth (x :: xs) ++ tail
      = ',' :: (newLine depth
        ++ (written .indented depth x ++ (writtenItems .indented depth xs ++ tail))) := by
  simp [writtenItems, Spacing.indented]

theorem writtenFields_cons (depth : Nat) (f : String × Json) (fs : List (String × Json))
    (tail : List Char) :
    writtenFields .indented depth (f :: fs) ++ tail
      = ',' :: (newLine depth ++ (writtenText f.1 ++ ':' :: ' ' ::
        (written .indented depth f.2 ++ (writtenFields .indented depth fs ++ tail)))) := by
  simp [writtenFields, Spacing.indented]

/-- Items are read up to the end of their list. -/
theorem parseItems_written {x : Json} {xs : List Json} (hs : ∀ y ∈ x :: xs, IsStorable y)
    (hr : ∀ y ∈ x :: xs, Reads y) {depth outer level left : Nat} {rest : List Char}
    (hlevel : itemLevels (x :: xs) ≤ level)
    (hleft : 2 * (written .indented depth x ++ (writtenItems .indented depth xs
      ++ (newLine outer ++ ']' :: rest))).length + 1 < left) :
    parseItems level left (written .indented depth x ++ (writtenItems .indented depth xs
      ++ (newLine outer ++ ']' :: rest))) = .ok (x :: xs, rest) := by
  induction xs generalizing x left with
  | nil =>
    obtain ⟨left, rfl⟩ := Nat.exists_eq_succ_of_ne_zero (Nat.ne_zero_of_lt hleft)
    simp only [itemLevels] at hlevel
    rw [parseItems, hr x List.mem_cons_self depth level left _ (by omega) (by omega)]
    simp only [writtenItems, List.nil_append, bind, Except.bind]
    rw [skipGaps_newLine, skipGaps_cons (by decide)]
    rfl
  | cons y ys ih =>
    obtain ⟨left, rfl⟩ := Nat.exists_eq_succ_of_ne_zero (Nat.ne_zero_of_lt hleft)
    obtain ⟨_, hstail⟩ := List.forall_mem_cons.1 hs
    obtain ⟨_, hrtail⟩ := List.forall_mem_cons.1 hr
    have hlevels : x.levels ≤ level ∧ itemLevels (y :: ys) ≤ level := by
      rw [itemLevels] at hlevel
      omega
    have hbegins := (hstail y List.mem_cons_self).beginsValue .indented depth
    rw [parseItems, hr x List.mem_cons_self depth level left _ hlevels.1 (by omega)]
    rw [writtenItems_cons] at hleft ⊢
    simp only [List.length_append, List.length_cons] at hleft
    have hitems : parseItems level left (written .indented depth y
        ++ (writtenItems .indented depth ys ++ (newLine outer ++ ']' :: rest)))
          = .ok (y :: ys, rest) := ih hstail hrtail hlevels.2 (by
      simp only [List.length_append, List.length_cons]
      omega)
    simp only [bind, Except.bind]
    rw [skipGaps_cons (by decide)]
    simp only [skipGaps_newLine, (hbegins.append _).skipGaps_eq, hitems]
    rfl

/-- A field is read up to what stands behind its value. -/
theorem parseFields_field {f : String × Json} (hk : Text.IsSound f.1) (hs : IsStorable f.2)
    (hr : Reads f.2) {depth level left : Nat} {tail : List Char} (hlevel : f.2.levels ≤ level)
    (hleft : 2 * (writtenText f.1 ++ ':' :: ' ' :: (written .indented depth f.2 ++ tail)).length
      ≤ left) :
    parseFields level (left + 1)
        (writtenText f.1 ++ ':' :: ' ' :: (written .indented depth f.2 ++ tail))
      = match skipGaps tail with
        | '\x7d' :: after => .ok ([f], after)
        | ',' :: after => do
          let (fields, rest) ← parseFields level left (skipGaps after)
          return (f :: fields, rest)
        | other => .error (.malformed .noComma other) := by
  simp only [List.length_append, List.length_cons] at hleft
  have hquoted : quotedText left
      (writtenText f.1 ++ ':' :: ' ' :: (written .indented depth f.2 ++ tail))
      = .ok (f.1, ':' :: ' ' :: (written .indented depth f.2 ++ tail)) :=
    quotedText_written hk _ (by omega)
  have hvalue : parseValue level left (written .indented depth f.2 ++ tail)
      = .ok (f.2, tail) :=
    hr depth level left tail hlevel (by rw [List.length_append]; omega)
  have hspace : skipGaps (' ' :: (written .indented depth f.2 ++ tail))
      = written .indented depth f.2 ++ tail :=
    ((hs.beginsValue .indented depth).append tail).skipGaps_eq
  obtain ⟨s, hstart⟩ : ∃ s, writtenText f.1
      ++ ':' :: ' ' :: (written .indented depth f.2 ++ tail) = '"' :: s := ⟨_, rfl⟩
  rw [hstart] at hquoted ⊢
  rw [parseFields, hquoted]
  simp only [bind, Except.bind]
  rw [skipGaps_cons (by decide)]
  simp only [hspace, hvalue]
  rfl

theorem parseFields_written {f : String × Json} {fs : List (String × Json)}
    (hk : ∀ g ∈ f :: fs, Text.IsSound g.1) (hs : ∀ g ∈ f :: fs, IsStorable g.2)
    (hr : ∀ g ∈ f :: fs, Reads g.2) {depth outer level left : Nat} {rest : List Char}
    (hlevel : fieldLevels (f :: fs) ≤ level)
    (hleft : 2 * (writtenText f.1 ++ ':' :: ' ' :: (written .indented depth f.2
      ++ (writtenFields .indented depth fs ++ (newLine outer ++ '\x7d' :: rest)))).length + 1
        < left) :
    parseFields level left (writtenText f.1 ++ ':' :: ' ' :: (written .indented depth f.2
      ++ (writtenFields .indented depth fs ++ (newLine outer ++ '\x7d' :: rest))))
      = .ok (f :: fs, rest) := by
  induction fs generalizing f left with
  | nil =>
    obtain ⟨left, rfl⟩ := Nat.exists_eq_succ_of_ne_zero (Nat.ne_zero_of_lt hleft)
    simp only [fieldLevels] at hlevel
    rw [parseFields_field (hk f List.mem_cons_self) (hs f List.mem_cons_self)
      (hr f List.mem_cons_self) (by omega) (by omega)]
    rw [writtenFields, List.nil_append, skipGaps_newLine, skipGaps_cons (by decide)]
    rfl
  | cons g gs ih =>
    obtain ⟨left, rfl⟩ := Nat.exists_eq_succ_of_ne_zero (Nat.ne_zero_of_lt hleft)
    obtain ⟨_, hktail⟩ := List.forall_mem_cons.1 hk
    obtain ⟨_, hstail⟩ := List.forall_mem_cons.1 hs
    obtain ⟨_, hrtail⟩ := List.forall_mem_cons.1 hr
    have hlevels : f.2.levels ≤ level ∧ fieldLevels (g :: gs) ≤ level := by
      rw [fieldLevels] at hlevel
      omega
    have hbegins := beginsValue_writtenText g.1
    rw [parseFields_field (hk f List.mem_cons_self) (hs f List.mem_cons_self)
      (hr f List.mem_cons_self) hlevels.1 (by omega)]
    rw [writtenFields_cons] at hleft ⊢
    simp only [List.length_append, List.length_cons] at hleft
    have hfields : parseFields level left (writtenText g.1 ++ ':' :: ' ' ::
        (written .indented depth g.2 ++ (writtenFields .indented depth gs
          ++ (newLine outer ++ '\x7d' :: rest)))) = .ok (g :: gs, rest) :=
      ih hktail hstail hrtail hlevels.2 (by
        simp only [List.length_append, List.length_cons]
        omega)
    rw [skipGaps_cons (by decide)]
    simp only [skipGaps_newLine, (hbegins.append _).skipGaps_eq, hfields]
    rfl

theorem reads_list {items : List Json} (hs : ∀ j ∈ items, IsStorable j)
    (hr : ∀ j ∈ items, Reads j) : Reads (.list items) := by
  intro depth level left rest hlevel hleft
  obtain ⟨left, rfl⟩ := Nat.exists_eq_succ_of_ne_zero (Nat.ne_zero_of_lt hleft)
  obtain ⟨level, rfl⟩ : ∃ k, level = k + 1 := Nat.exists_eq_succ_of_ne_zero (by
    rw [levels] at hlevel
    omega)
  cases items with
  | nil => rfl
  | cons x xs =>
    have htext : written .indented depth (.list (x :: xs)) ++ rest
        = '[' :: (newLine (depth + 1) ++ (written .indented (depth + 1) x
          ++ (writtenItems .indented (depth + 1) xs ++ (newLine depth ++ ']' :: rest)))) := by
      simp [written, Spacing.indented]
    rw [htext] at hleft ⊢
    simp only [List.length_append, List.length_cons] at hleft
    have hbegins := ((hs x List.mem_cons_self).beginsValue .indented (depth + 1)).append
      (writtenItems .indented (depth + 1) xs ++ (newLine depth ++ ']' :: rest))
    have hitems : parseItems level left (written .indented (depth + 1) x
        ++ (writtenItems .indented (depth + 1) xs ++ (newLine depth ++ ']' :: rest)))
          = .ok (x :: xs, rest) :=
      parseItems_written hs hr (Nat.le_of_succ_le_succ hlevel) (by
        simp only [List.length_append, List.length_cons]
        omega)
    rw [parseValue, if_neg (Nat.succ_ne_zero level), skipGaps_newLine, hbegins.skipGaps_eq]
    split
    · next h =>
      obtain ⟨c, s, he, _, hc⟩ := hbegins
      rw [he] at h
      injection h with h
      exact absurd h hc
    · rw [Nat.add_sub_cancel, hitems]
      rfl

theorem reads_object {fields : List (String × Json)} (keys : (fields.map Prod.fst).Nodup)
    (hk : ∀ f ∈ fields, Text.IsSound f.1) (hs : ∀ f ∈ fields, IsStorable f.2)
    (hr : ∀ f ∈ fields, Reads f.2) : Reads (.object fields) := by
  intro depth level left rest hlevel hleft
  obtain ⟨left, rfl⟩ := Nat.exists_eq_succ_of_ne_zero (Nat.ne_zero_of_lt hleft)
  obtain ⟨level, rfl⟩ : ∃ k, level = k + 1 := Nat.exists_eq_succ_of_ne_zero (by
    rw [levels] at hlevel
    omega)
  cases fields with
  | nil => rfl
  | cons f fs =>
    have htext : written .indented depth (.object (f :: fs)) ++ rest
        = '\x7b' :: (newLine (depth + 1) ++ (writtenText f.1 ++ ':' :: ' ' ::
          (written .indented (depth + 1) f.2
            ++ (writtenFields .indented (depth + 1) fs ++ (newLine depth ++ '\x7d' :: rest))))) := by
      simp [written, Spacing.indented]
    rw [htext] at hleft ⊢
    simp only [List.length_append, List.length_cons] at hleft
    have hfields : parseFields level left (writtenText f.1 ++ ':' :: ' ' ::
        (written .indented (depth + 1) f.2 ++ (writtenFields .indented (depth + 1) fs
          ++ (newLine depth ++ '\x7d' :: rest)))) = .ok (f :: fs, rest) :=
      parseFields_written hk hs hr (Nat.le_of_succ_le_succ hlevel) (by
        simp only [List.length_append, List.length_cons]
        omega)
    rw [parseValue, if_neg (Nat.succ_ne_zero level), skipGaps_newLine,
      ((beginsValue_writtenText f.1).append _).skipGaps_eq]
    split
    · next h =>
      rw [writtenText] at h
      cases h
    · rw [Nat.add_sub_cancel, hfields]
      exact congrArg (fun fields => Except.ok (Json.object fields, rest)) (collect_eq_self keys)

/-- Storable data are read back. -/
theorem IsStorable.reads {j : Json} (h : IsStorable j) : Reads j := by
  induction h with
  | null =>
    intro depth level left rest _ hleft
    obtain ⟨left, rfl⟩ := Nat.exists_eq_succ_of_ne_zero (Nat.ne_zero_of_lt hleft)
    rfl
  | bool b =>
    intro depth level left rest _ hleft
    obtain ⟨left, rfl⟩ := Nat.exists_eq_succ_of_ne_zero (Nat.ne_zero_of_lt hleft)
    cases b <;> rfl
  | @str s sound =>
    intro depth level left rest _ hleft
    obtain ⟨left, rfl⟩ := Nat.exists_eq_succ_of_ne_zero (Nat.ne_zero_of_lt hleft)
    rw [written, List.length_append] at hleft
    have hquoted : quotedText left (writtenText s ++ rest) = .ok (s, rest) :=
      quotedText_written sound rest (by omega)
    obtain ⟨t, ht⟩ : ∃ t, writtenText s ++ rest = '"' :: t := ⟨_, rfl⟩
    rw [ht] at hquoted
    rw [written, ht, parseValue, hquoted]
    rfl
  | list all ih => exact reads_list all ih
  | object keys sound all ih => exact reads_object keys sound all ih

/-! ## Whole texts -/

/-- A printable ASCII character or a line feed. -/
def IsPrinted (c : Char) : Prop := c = '\n' ∨ (0x20 ≤ c.toNat ∧ c.toNat < 0x7F)

theorem isPrinted_newLine (depth : Nat) : ∀ c ∈ newLine depth, IsPrinted c := by
  intro c hc
  rw [newLine, List.mem_cons, List.mem_replicate] at hc
  rcases hc with rfl | ⟨_, rfl⟩
  · exact .inl rfl
  · exact .inr (by decide)

theorem isPrinted_append {s t : List Char} (hs : ∀ c ∈ s, IsPrinted c) (ht : ∀ c ∈ t, IsPrinted c) :
    ∀ c ∈ s ++ t, IsPrinted c := List.forall_mem_append.2 ⟨hs, ht⟩

theorem isPrinted_cons {c : Char} (hc : 0x20 ≤ c.toNat ∧ c.toNat < 0x7F) {s : List Char}
    (hs : ∀ c ∈ s, IsPrinted c) : ∀ d ∈ c :: s, IsPrinted d :=
  List.forall_mem_cons.2 ⟨.inr hc, hs⟩

theorem isPrinted_writtenItems (depth : Nat) {items : List Json}
    (h : ∀ j ∈ items, ∀ c ∈ written .indented depth j, IsPrinted c) :
    ∀ c ∈ writtenItems .indented depth items, IsPrinted c := by
  induction items with
  | nil => exact fun c hc => absurd hc List.not_mem_nil
  | cons x xs ih =>
    obtain ⟨hx, hxs⟩ := List.forall_mem_cons.1 h
    rw [← List.append_nil (writtenItems _ _ _), writtenItems_cons, List.append_nil]
    exact isPrinted_cons (by decide)
      (isPrinted_append (isPrinted_newLine depth) (isPrinted_append hx (ih hxs)))

theorem isPrinted_field (depth : Nat) {f : String × Json} (hk : Text.IsSound f.1)
    (h : ∀ c ∈ written .indented depth f.2, IsPrinted c) {tail : List Char}
    (htail : ∀ c ∈ tail, IsPrinted c) :
    ∀ c ∈ writtenText f.1 ++ ':' :: ' ' :: (written .indented depth f.2 ++ tail), IsPrinted c :=
  isPrinted_append (fun _ hc => .inr (printable_writtenText hk hc))
    (isPrinted_cons (by decide) (isPrinted_cons (by decide) (isPrinted_append h htail)))

theorem isPrinted_writtenFields (depth : Nat) {fields : List (String × Json)}
    (hk : ∀ f ∈ fields, Text.IsSound f.1)
    (h : ∀ f ∈ fields, ∀ c ∈ written .indented depth f.2, IsPrinted c) :
    ∀ c ∈ writtenFields .indented depth fields, IsPrinted c := by
  induction fields with
  | nil => exact fun c hc => absurd hc List.not_mem_nil
  | cons f fs ih =>
    obtain ⟨hkey, hkeys⟩ := List.forall_mem_cons.1 hk
    obtain ⟨hf, hfs⟩ := List.forall_mem_cons.1 h
    rw [← List.append_nil (writtenFields _ _ _), writtenFields_cons, List.append_nil]
    exact isPrinted_cons (by decide) (isPrinted_append (isPrinted_newLine depth)
      (isPrinted_field depth hkey hf (ih hkeys hfs)))

/-- Storable data are written in ASCII, and every line ends in a line feed. -/
theorem IsStorable.isPrinted {j : Json} (h : IsStorable j) (depth : Nat) :
    ∀ c ∈ written .indented depth j, IsPrinted c := by
  induction h generalizing depth with
  | null =>
    have hall : ∀ c ∈ "null".toList, 0x20 ≤ c.toNat ∧ c.toNat < 0x7F := by decide
    exact fun c hc => .inr (hall c hc)
  | bool b =>
    have hall : ∀ c ∈ (if b then "true" else "false").toList, 0x20 ≤ c.toNat ∧ c.toNat < 0x7F := by
      cases b <;> decide
    exact fun c hc => .inr (hall c hc)
  | str sound => exact fun c hc => .inr (printable_writtenText sound hc)
  | @list items all ih =>
    cases items with
    | nil => exact isPrinted_cons (by decide) (isPrinted_cons (by decide) (by simp))
    | cons x xs =>
      obtain ⟨hx, hxs⟩ := List.forall_mem_cons.1 ih
      have hclosing : ∀ c ∈ newLine depth ++ [']'], IsPrinted c :=
        isPrinted_append (isPrinted_newLine depth) (isPrinted_cons (by decide) (by simp))
      have hitems := isPrinted_writtenItems (depth + 1) fun j hj => hxs j hj (depth + 1)
      simp only [written, Spacing.indented, List.cons_append, List.append_assoc]
      exact isPrinted_cons (by decide) (isPrinted_append (isPrinted_newLine (depth + 1))
        (isPrinted_append (hx (depth + 1)) (isPrinted_append hitems hclosing)))
  | @object fields keys sound all ih =>
    cases fields with
    | nil => exact isPrinted_cons (by decide) (isPrinted_cons (by decide) (by simp))
    | cons f fs =>
      obtain ⟨hkey, hkeys⟩ := List.forall_mem_cons.1 sound
      obtain ⟨hf, hfs⟩ := List.forall_mem_cons.1 ih
      have hclosing : ∀ c ∈ newLine depth ++ ['\x7d'], IsPrinted c :=
        isPrinted_append (isPrinted_newLine depth) (isPrinted_cons (by decide) (by simp))
      have hfields := isPrinted_writtenFields (depth + 1) hkeys fun g hg => hfs g hg (depth + 1)
      simp only [written, Spacing.indented, List.cons_append, List.append_assoc]
      exact isPrinted_cons (by decide) (isPrinted_append (isPrinted_newLine (depth + 1))
        (isPrinted_field (depth + 1) hkey (hf (depth + 1)) (isPrinted_append hfields hclosing)))

/-- Data that are not nested too deeply come back from their text, a line feed behind it. -/
theorem parse_indentedText {j : Json} (h : IsStorable j) (hlevel : j.levels ≤ deepest) :
    parse (indentedText j ++ "\n") = .ok j := by
  have htext : (indentedText j ++ "\n").toList = written .indented 0 j ++ ['\n'] := by
    rw [String.toList_append, indentedText, String.toList_ofList]
    rfl
  obtain ⟨c, s, hbegins, hgap, _⟩ := (h.beginsValue .indented 0).append ['\n']
  have hmark : ¬ (written .indented 0 j ++ ['\n']).head? = some (Char.ofNat 0xFEFF) := by
    intro hhead
    have hprinted := isPrinted_append (h.isPrinted 0) (t := ['\n']) (by simp [IsPrinted]) _
      (List.mem_of_mem_head? hhead)
    rcases hprinted with hc | hc
    · exact absurd hc (by decide)
    · exact absurd hc (by decide)
  have hvalue : parseValue deepest (2 * (written .indented 0 j ++ ['\n']).length + 2)
      (written .indented 0 j ++ ['\n']) = .ok (j, ['\n']) :=
    h.reads 0 deepest _ ['\n'] hlevel (by omega)
  have hskip : skipGaps (written .indented 0 j ++ ['\n']) = written .indented 0 j ++ ['\n'] := by
    rw [hbegins, skipGaps_cons hgap]
  have hend : skipGaps ['\n'] = [] := rfl
  rw [parse, htext, parseDocument, if_neg hmark, hskip, hvalue]
  simp only [bind, Except.bind, hend]
  rfl

end AppPipeline.Json
