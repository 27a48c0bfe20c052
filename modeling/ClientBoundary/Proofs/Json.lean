import Mathlib.Data.List.Induction
import Mathlib.Data.String.Basic
import ClientBoundary.Json.Reader

/-!
# Objects as they are written

A document may give the members of an object in any order, and a key more than once. Reading puts them in
order and keeps the **last** value of a key. `asWritten?` reads a document without that, and `settle` does it
afterwards: the value of a document is the written one, settled (`parse?_eq`).

What is asked of a value can so be asked of the document: the value of a key is the last one that is written
(`get?_settle`), and texts and arrays are what they were.
-/

namespace ClientBoundary

namespace Json

/-! ## Members in order -/

section put

variable {key : String} {v : Json} {members : List (String × Json)}

/-- Members in the strict order of their keys. -/
def Increasing (members : List (String × Json)) : Prop := members.Pairwise fun a b => a.1 < b.1

theorem mem_of_mem_put {m : String × Json} (h : m ∈ put key v members) : m = (key, v) ∨ m ∈ members := by
  induction members with
  | nil => exact .inl (List.mem_singleton.1 h)
  | cons head rest ih =>
    obtain ⟨k, w⟩ := head
    rw [put] at h
    split at h
    · exact List.mem_cons.1 h
    split at h
    · exact (List.mem_cons.1 h).imp_right (List.mem_cons_of_mem _)
    · rcases List.mem_cons.1 h with rfl | h
      · exact .inr (List.mem_cons_self ..)
      · exact (ih h).imp_right (List.mem_cons_of_mem _)

/-- Putting a member keeps the order. -/
theorem Increasing.put (h : Increasing members) (key : String) (v : Json) :
    Increasing (put key v members) := by
  induction members with
  | nil => exact List.pairwise_singleton _ _
  | cons head rest ih =>
    obtain ⟨k, w⟩ := head
    obtain ⟨hhead, hrest⟩ := List.pairwise_cons.1 h
    rw [Json.put]
    split
    · rename_i hlt
      refine List.pairwise_cons.2 ⟨List.forall_mem_cons.2 ⟨hlt, fun m hm => ?_⟩, h⟩
      exact lt_trans hlt (hhead m hm)
    rename_i hlt
    split
    · rename_i heq
      exact List.pairwise_cons.2 ⟨fun m hm => heq ▸ hhead m hm, hrest⟩
    · rename_i hne
      refine List.pairwise_cons.2 ⟨fun m hm => ?_, ih hrest⟩
      rcases mem_of_mem_put hm with rfl | hm
      · exact lt_of_le_of_ne (not_lt.1 hlt) (Ne.symm hne)
      · exact hhead m hm

end put

theorem lookup_cons (j k : String) (v : Json) (members : List (String × Json)) :
    ((j, v) :: members).lookup k = if k = j then some v else members.lookup k := by
  rw [List.lookup_cons]
  by_cases hk : k = j
  · rw [if_pos hk, beq_iff_eq.2 hk]
  · rw [if_neg hk, beq_false_of_ne hk]

theorem lookup_put (key k : String) (v : Json) (members : List (String × Json)) :
    (put key v members).lookup k = if k = key then some v else members.lookup k := by
  induction members with
  | nil => exact lookup_cons key k v []
  | cons head rest ih =>
    obtain ⟨j, w⟩ := head
    rw [put]
    split
    · exact lookup_cons key k v _
    split
    · rename_i heq
      rw [lookup_cons, lookup_cons, heq]
      by_cases hk : k = j
      · rw [if_pos hk, if_pos hk]
      · rw [if_neg hk, if_neg hk, if_neg hk]
    · -- the key stands further back, so what is found here is another one
      rename_i hne
      rw [lookup_cons, lookup_cons, ih]
      by_cases hk : k = j
      · rw [if_pos hk, if_pos hk, if_neg fun h => hne (h.symm.trans hk)]
      · rw [if_neg hk, if_neg hk]

theorem Increasing.nodup {members : List (String × Json)} (h : Increasing members) :
    (members.map (·.1)).Nodup :=
  List.pairwise_map.2 (h.imp fun hlt => ne_of_lt hlt)

/-- Where no key comes twice, a lookup finds what is there. -/
theorem lookup_eq_some {members : List (String × Json)} (h : (members.map (·.1)).Nodup) {k : String}
    {v : Json} :
    members.lookup k = some v ↔ (k, v) ∈ members := by
  induction members with
  | nil => exact iff_of_false nofun List.not_mem_nil
  | cons m rest ih =>
    obtain ⟨key, value⟩ := m
    obtain ⟨hkey, hrest⟩ := List.nodup_cons.1 h
    rw [lookup_cons, List.mem_cons]
    by_cases hk : k = key
    · subst hk
      have hnot : (k, v) ∉ rest := fun hmem => hkey (List.mem_map.2 ⟨(k, v), hmem, rfl⟩)
      rw [if_pos rfl, or_iff_left hnot, Option.some.injEq, Prod.mk.injEq, eq_comm]
      exact (and_iff_right rfl).symm
    · rw [if_neg hk, ih hrest]
      exact (or_iff_right fun heq => hk (congrArg Prod.fst heq)).symm

/-- Members in the order of their keys, each key with its last value. -/
def sorted (members : List (String × Json)) : List (String × Json) :=
  members.foldl (fun done m => put m.1 m.2 done) []

theorem ofMembers_eq (members : List (String × Json)) : ofMembers members = object (sorted members) := rfl

theorem increasing_sorted (members : List (String × Json)) : Increasing (sorted members) := by
  have hfold : ∀ done : List (String × Json), Increasing done →
      Increasing (members.foldl (fun done m => put m.1 m.2 done) done) := by
    induction members with
    | nil => exact fun done h => h
    | cons m rest ih => exact fun done h => ih _ (h.put m.1 m.2)
  exact hfold [] .nil

/-- **The last value of a key counts.** -/
theorem lookup_sorted (members : List (String × Json)) (k : String) :
    (sorted members).lookup k = members.reverse.lookup k := by
  induction members using List.reverseRecOn with
  | nil => rfl
  | append_singleton init m ih =>
    obtain ⟨key, v⟩ := m
    have hlast : sorted (init ++ [(key, v)]) = put key v (sorted init) := List.foldl_append
    rw [hlast, lookup_put, ih, List.reverse_append, List.reverse_singleton, List.singleton_append,
      lookup_cons]

theorem mem_of_mem_sorted {members : List (String × Json)} {m : String × Json} (h : m ∈ sorted members) :
    m ∈ members := by
  induction members using List.reverseRecOn with
  | nil => exact h
  | append_singleton init last ih =>
    have hlast : sorted (init ++ [last]) = put last.1 last.2 (sorted init) := List.foldl_append
    rw [hlast] at h
    rcases mem_of_mem_put h with rfl | h
    · exact List.mem_append_right _ (List.mem_singleton_self _)
    · exact List.mem_append_left _ (ih h)

/-- A member with a new key is added. -/
theorem put_perm {key : String} {v : Json} {members : List (String × Json)}
    (h : key ∉ members.map (·.1)) : (put key v members).Perm ((key, v) :: members) := by
  induction members with
  | nil => exact .refl _
  | cons head rest ih =>
    obtain ⟨k, w⟩ := head
    obtain ⟨hne, hrest⟩ := not_or.1 (mt List.mem_cons.2 h)
    rw [put, if_neg (show ¬ key = k from hne)]
    split
    · exact .refl _
    · exact ((ih hrest).cons _).trans (.swap _ _ _)

/-- Where no key comes twice, putting members in order loses none of them. -/
theorem sorted_perm {members : List (String × Json)} (h : (members.map (·.1)).Nodup) :
    (sorted members).Perm members := by
  induction members using List.reverseRecOn with
  | nil => exact .refl _
  | append_singleton init m ih =>
    obtain ⟨key, v⟩ := m
    rw [List.map_append, List.nodup_append] at h
    obtain ⟨hinit, -, hdisjoint⟩ := h
    have hlast : sorted (init ++ [(key, v)]) = put key v (sorted init) := List.foldl_append
    have hkey : key ∉ (sorted init).map (·.1) := by
      intro hmem
      exact hdisjoint key (((ih hinit).map _).mem_iff.1 hmem) key (List.mem_singleton_self key) rfl
    rw [hlast]
    exact (put_perm hkey).trans (((ih hinit).cons _).trans (List.perm_append_singleton _ _).symm)

/-! ## Values in order -/

mutual

/-- The value with all its objects in order, each key with its last value. -/
def settle : Json → Json
  | array items => array (settleItems items)
  | object members => ofMembers (settleMembers members)
  | null => null
  | bool b => bool b
  | number literal => number literal
  | string s => string s

/-- Items with all their objects in order. -/
def settleItems : List Json → List Json
  | [] => []
  | v :: rest => settle v :: settleItems rest

/-- Members with all objects of their values in order. -/
def settleMembers : List (String × Json) → List (String × Json)
  | [] => []
  | (key, v) :: rest => (key, settle v) :: settleMembers rest

end

/-- The value that is written last under a key of an object. -/
def written? (key : String) : Json → Option Json
  | object members => members.reverse.lookup key
  | _ => none

/-- The order in which members are written does not matter if no key comes twice. -/
theorem written?_perm {members' members : List (String × Json)} (h : members'.Perm members)
    (hnodup : (members.map (·.1)).Nodup) (key : String) :
    (object members').written? key = (object members).written? key := by
  have hreverse : members'.reverse.Perm members.reverse :=
    (List.reverse_perm _).trans (h.trans (List.reverse_perm _).symm)
  have hnodup' : (members.reverse.map (·.1)).Nodup :=
    ((List.reverse_perm members).map _).nodup_iff.2 hnodup
  have hnodup'' : (members'.reverse.map (·.1)).Nodup := (hreverse.map _).nodup_iff.2 hnodup'
  refine Option.ext fun v => ?_
  rw [written?, written?, lookup_eq_some hnodup', lookup_eq_some hnodup'']
  exact hreverse.mem_iff

theorem settleItems_eq (items : List Json) : settleItems items = items.map settle := by
  induction items with
  | nil => rfl
  | cons v rest ih => rw [settleItems, ih, List.map_cons]

theorem settleMembers_eq (members : List (String × Json)) :
    settleMembers members = members.map fun m => (m.1, settle m.2) := by
  induction members with
  | nil => rfl
  | cons m rest ih =>
    obtain ⟨key, v⟩ := m
    rw [settleMembers, ih, List.map_cons]

theorem lookup_settle (members : List (String × Json)) (k : String) :
    (members.map fun m => (m.1, settle m.2)).lookup k = (members.lookup k).map settle := by
  induction members with
  | nil => rfl
  | cons m rest ih =>
    rw [List.map_cons, lookup_cons, lookup_cons, ih]
    split
    · rfl
    · rfl

/-- Members in order, with all objects of their values in order. -/
def settled (members : List (String × Json)) : List (String × Json) :=
  sorted (members.map fun m => (m.1, settle m.2))

theorem settle_object (members : List (String × Json)) :
    settle (object members) = object (settled members) := by
  rw [settle, settleMembers_eq, ofMembers_eq]
  rfl

theorem increasing_settled (members : List (String × Json)) : Increasing (settled members) :=
  increasing_sorted _

/-- Where no key comes twice, all members are still there. -/
theorem settled_perm {members : List (String × Json)} (h : (members.map (·.1)).Nodup) :
    (settled members).Perm (members.map fun m => (m.1, settle m.2)) := by
  refine sorted_perm ?_
  rwa [List.map_map]

/-- The last value of a key counts, put in order. -/
theorem lookup_settled (members : List (String × Json)) (k : String) :
    (settled members).lookup k = (members.reverse.lookup k).map settle := by
  rw [settled, lookup_sorted, ← List.map_reverse, lookup_settle]

@[simp] theorem get?_settle (key : String) (v : Json) :
    (settle v).get? key = (v.written? key).map settle := by
  cases v with
  | object members =>
    rw [settle_object, get?, lookup_settled]
    rfl
  | null | bool | number | string | array => rfl

@[simp] theorem text?_settle (v : Json) : (settle v).text? = v.text? := by
  cases v <;> rfl

@[simp] theorem items?_settle (v : Json) : (settle v).items? = v.items?.map (·.map settle) := by
  cases v with
  | array items =>
    rw [settle, settleItems_eq]
    rfl
  | null | bool | number | string | object => rfl

/-! ## Documents -/

/-- The value of a document, with the members of objects as they are written. -/
def asWritten? (source : String) : Option Json := document? object source

/-- One reader gives the settled values of another. -/
def ReadsSettled (read' read : Reading) : Prop :=
  ∀ ts, read' ts = (read ts).map fun out => (settle out.1, out.2)

namespace ReadsSettled

variable {read' read : Reading}

theorem restItems (h : ReadsSettled read' read) (fuel : Nat) (ts : List JsonToken) :
    Json.restItems read' fuel ts =
      (Json.restItems read fuel ts).map fun out => (settleItems out.1, out.2) := by
  induction fuel generalizing ts with
  | zero => rfl
  | succ fuel ih =>
    unfold Json.restItems
    split
    · rfl
    · rename_i ts
      rw [h ts]
      cases read ts with
      | none => rfl
      | some out =>
        simp only [Option.map_some, Option.bind_eq_bind, Option.bind_some, ih]
        cases Json.restItems read fuel out.2 <;> rfl
    · rfl

theorem items (h : ReadsSettled read' read) (ts : List JsonToken) :
    Json.items read' ts = (Json.items read ts).map fun out => (settleItems out.1, out.2) := by
  unfold Json.items
  split
  · rfl
  · rw [h]
    cases read ts with
    | none => rfl
    | some out =>
      simp only [Option.map_some, Option.bind_eq_bind, Option.bind_some, h.restItems]
      cases Json.restItems read (out.2.length + 1) out.2 <;> rfl

theorem member (h : ReadsSettled read' read) (ts : List JsonToken) :
    Json.member read' ts =
      (Json.member read ts).map fun out => ((out.1.1, settle out.1.2), out.2) := by
  unfold Json.member
  split
  · rename_i key ts
    rw [h ts]
    cases read ts <;> rfl
  · rfl

theorem restMembers (h : ReadsSettled read' read) (fuel : Nat) (ts : List JsonToken) :
    Json.restMembers read' fuel ts =
      (Json.restMembers read fuel ts).map fun out => (settleMembers out.1, out.2) := by
  induction fuel generalizing ts with
  | zero => rfl
  | succ fuel ih =>
    unfold Json.restMembers
    split
    · rfl
    · rename_i ts
      rw [h.member ts]
      cases Json.member read ts with
      | none => rfl
      | some out =>
        simp only [Option.map_some, Option.bind_eq_bind, Option.bind_some, ih]
        cases Json.restMembers read fuel out.2 <;> rfl
    · rfl

theorem members (h : ReadsSettled read' read) (ts : List JsonToken) :
    Json.members read' ts = (Json.members read ts).map fun out => (settleMembers out.1, out.2) := by
  unfold Json.members
  split
  · rfl
  · rw [h.member]
    cases Json.member read ts with
    | none => rfl
    | some out =>
      simp only [Option.map_some, Option.bind_eq_bind, Option.bind_some, h.restMembers]
      cases Json.restMembers read (out.2.length + 1) out.2 <;> rfl

/-- A value without parts is in order. -/
theorem atom (ts : List JsonToken) : Json.atom ts = (Json.atom ts).map fun out => (settle out.1, out.2) := by
  unfold Json.atom
  split
  · rfl
  · rfl
  · split
    · rfl
    split
    · rfl
    · rfl
  · rfl

/-- Objects can be put in order as soon as they are closed, or when all is read. -/
theorem value (depth : Nat) : ReadsSettled (Json.value ofMembers depth) (Json.value object depth) := by
  induction depth with
  | zero => exact atom
  | succ depth ih =>
    intro ts
    unfold Json.value
    split
    · rename_i ts
      rw [ih.items ts]
      cases Json.items (Json.value object depth) ts <;> rfl
    · rename_i ts
      rw [ih.members ts]
      cases Json.members (Json.value object depth) ts <;> rfl
    · exact atom _

end ReadsSettled

/-- **The value of a document** is what is written there, put in order. -/
theorem parse?_eq (source : String) : parse? source = (asWritten? source).map settle := by
  rw [parse?, asWritten?, document?, document?]
  cases JsonToken.scan? 0 source.toList with
  | none => rfl
  | some ts =>
    simp only [Option.bind_some, ReadsSettled.value maxDepth ts]
    cases value object maxDepth ts with
    | none => rfl
    | some out =>
      obtain ⟨v, rest⟩ := out
      cases rest <;> rfl

end Json

end ClientBoundary
