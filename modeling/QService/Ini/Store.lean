import QService.FirstMatch

/-!
# The INI store

`CIniFile` keeps a list of nodes, and each node a list of keys with their
values. Every operation searches both lists from the front. The loops are not
alike: a write and `delNode` stop at the first node with the name, while a read
and `delKey` go on to later nodes when that node does not have the key.

What the store is for is a map from node names and keys to values (`IniMap`).
The two agree after any operations (`getStringValue_run`), because no two nodes
have the same name and no two keys of a node are equal, which every operation
keeps.
-/

/-- `CIniFile::stIniKey`. -/
structure IniKey where
  strKey : List UInt8
  strValue : List UInt8
  deriving DecidableEq, Repr

/-- `CIniFile::stIniNode`. -/
structure IniNode where
  strNode : List UInt8
  lstKey : List IniKey
  deriving DecidableEq, Repr

/-- `m_lstNodeInfo`. -/
abbrev IniStore : Type := List IniNode

namespace IniStore

/-- An empty `CIniFile`. -/
def empty : IniStore := []

/-- The value of the first key that is equal. -/
def findKey (lstKey : List IniKey) (pszKey : List UInt8) : Option (List UInt8) :=
  (lstKey.find? (·.strKey = pszKey)).map IniKey.strValue

/-- `CIniFile::getStringValue`. A node without the key does not end the search. NULL is
`none`, as it may be for the default. -/
def getStringValue (s : IniStore) (pszNode pszKey : List UInt8) (pszDefault : Option (List UInt8)) :
    Option (List UInt8) :=
  (s.findSome? fun nd => if nd.strNode = pszNode then findKey nd.lstKey pszKey else none).or
    pszDefault

/-- The inner loop of `CIniFile::setStringValue`. -/
def setKey (pszKey pszValue : List UInt8) : List IniKey → List IniKey :=
  upsert IniKey.strKey pszKey (fun st => { st with strValue := pszValue }) ⟨pszKey, pszValue⟩

/-- `CIniFile::setStringValue`. -/
def setStringValue (s : IniStore) (pszNode pszKey pszValue : List UInt8) : IniStore :=
  upsert IniNode.strNode pszNode (fun st => { st with lstKey := setKey pszKey pszValue st.lstKey })
    ⟨pszNode, [⟨pszKey, pszValue⟩]⟩ s

/-- `CIniFile::delKey`. A node without the key does not end the search. -/
def delKey (s : IniStore) (pszNode pszKey : List UInt8) : IniStore :=
  match s with
  | [] => []
  | nd :: rest =>
    if nd.strNode = pszNode ∧ nd.lstKey.any (·.strKey = pszKey) then
      { nd with lstKey := nd.lstKey.eraseP (·.strKey = pszKey) } :: rest
    else nd :: delKey rest pszNode pszKey

/-- `CIniFile::delNode`. -/
def delNode (s : IniStore) (pszNode : List UInt8) : IniStore :=
  s.eraseP (·.strNode = pszNode)

/-- A call that changes the store. -/
inductive Op
  | setStringValue (pszNode pszKey pszValue : List UInt8)
  | delKey (pszNode pszKey : List UInt8)
  | delNode (pszNode : List UInt8)

/-- The store after a call. -/
def step (s : IniStore) : Op → IniStore
  | .setStringValue n k v => s.setStringValue n k v
  | .delKey n k => s.delKey n k
  | .delNode n => s.delNode n

/-- The store after some calls, from an empty one. -/
def run (ops : List Op) : IniStore := ops.foldl step empty

end IniStore

/-! ## The map -/

/-- What a store is for: a value for a node and a key, if there is one. -/
def IniMap : Type := List UInt8 → List UInt8 → Option (List UInt8)

namespace IniMap

/-- The map without values. -/
def empty : IniMap := fun _ _ => none

/-- A value is inserted, or overwritten. -/
def insert (m : IniMap) (n k v : List UInt8) : IniMap :=
  Function.update m n (Function.update (m n) k (some v))

/-- A key is erased. -/
def eraseKey (m : IniMap) (n k : List UInt8) : IniMap :=
  Function.update m n (Function.update (m n) k none)

/-- All keys of a node are erased. -/
def eraseNode (m : IniMap) (n : List UInt8) : IniMap := Function.update m n fun _ => none

/-- The map after a call. -/
def step (m : IniMap) : IniStore.Op → IniMap
  | .setStringValue n k v => m.insert n k v
  | .delKey n k => m.eraseKey n k
  | .delNode n => m.eraseNode n

/-- The map after some calls, from the empty one. -/
def run (ops : List IniStore.Op) : IniMap := ops.foldl step empty

end IniMap

namespace IniStore

/-! ## No two nodes and no two keys are equal -/

/-- No two nodes have the same name, and no two keys of a node are equal. -/
structure Unique (s : IniStore) : Prop where
  nodes : (s.map IniNode.strNode).Nodup
  keys : ∀ nd ∈ s, (nd.lstKey.map IniKey.strKey).Nodup

theorem unique_empty : Unique empty := ⟨List.nodup_nil, fun _ h => absurd h List.not_mem_nil⟩

theorem keepsKey_setKey (k v : List UInt8) :
    KeepsKey IniKey.strKey k (fun st => { st with strValue := v }) ⟨k, v⟩ := ⟨fun _ => rfl, rfl⟩

theorem keepsKey_setStringValue (n k v : List UInt8) :
    KeepsKey IniNode.strNode n (fun st => { st with lstKey := setKey k v st.lstKey })
      ⟨n, [⟨k, v⟩]⟩ := ⟨fun _ => rfl, rfl⟩

theorem nodup_setKey {l : List IniKey} (h : (l.map IniKey.strKey).Nodup) (k v : List UInt8) :
    ((setKey k v l).map IniKey.strKey).Nodup :=
  nodup_upsert (keepsKey_setKey k v) h

theorem Unique.setStringValue {s : IniStore} (h : Unique s) (n k v : List UInt8) :
    Unique (s.setStringValue n k v) where
  nodes := nodup_upsert (keepsKey_setStringValue n k v) h.nodes
  keys nd hnd := by
    rcases mem_upsert hnd with rfl | ⟨nd', hnd', rfl⟩ | hnd'
    · exact List.nodup_singleton k
    · exact nodup_setKey (h.keys nd' hnd') k v
    · exact h.keys nd hnd'

/-- A deletion keeps the nodes. -/
theorem map_strNode_delKey (s : IniStore) (n k : List UInt8) :
    (s.delKey n k).map IniNode.strNode = s.map IniNode.strNode := by
  induction s with
  | nil => rfl
  | cons nd s ih =>
    unfold delKey
    split_ifs
    · rfl
    · rw [List.map_cons, ih, List.map_cons]

theorem mem_delKey {s : IniStore} {n k : List UInt8} {nd : IniNode} (h : nd ∈ s.delKey n k) :
    nd ∈ s ∨ ∃ nd' ∈ s, nd = { nd' with lstKey := nd'.lstKey.eraseP (·.strKey = k) } := by
  induction s with
  | nil => exact absurd h List.not_mem_nil
  | cons nd' s ih =>
    unfold delKey at h
    split_ifs at h
    · rcases List.mem_cons.mp h with rfl | h
      · exact .inr ⟨nd', List.mem_cons_self, rfl⟩
      · exact .inl (List.mem_cons_of_mem _ h)
    · rcases List.mem_cons.mp h with rfl | h
      · exact .inl List.mem_cons_self
      · rcases ih h with h | ⟨nd'', h, heq⟩
        · exact .inl (List.mem_cons_of_mem _ h)
        · exact .inr ⟨nd'', List.mem_cons_of_mem _ h, heq⟩

theorem Unique.delKey {s : IniStore} (h : Unique s) (n k : List UInt8) :
    Unique (s.delKey n k) where
  nodes := by
    rw [map_strNode_delKey]
    exact h.nodes
  keys nd hnd := by
    rcases mem_delKey hnd with hnd | ⟨nd', hnd', rfl⟩
    · exact h.keys nd hnd
    · exact nodup_eraseP _ (h.keys nd' hnd')

theorem Unique.delNode {s : IniStore} (h : Unique s) (n : List UInt8) : Unique (s.delNode n) :=
  ⟨nodup_eraseP _ h.nodes, fun nd hnd => h.keys nd (List.mem_of_mem_eraseP hnd)⟩

theorem Unique.step {s : IniStore} (h : Unique s) (op : Op) : Unique (s.step op) := by
  cases op with
  | setStringValue n k v => exact h.setStringValue n k v
  | delKey n k => exact h.delKey n k
  | delNode n => exact h.delNode n

/-! ## The store as a map -/

/-- What the first node with the name has under the key. -/
def lookup (s : IniStore) (n k : List UInt8) : Option (List UInt8) :=
  (s.find? (·.strNode = n)).bind fun nd => findKey nd.lstKey k

/-- **A read sees the first node only**, as there is no other one with its name. -/
theorem getStringValue_eq {s : IniStore} (h : Unique s) (n k : List UInt8)
    (d : Option (List UInt8)) : s.getStringValue n k d = (s.lookup n k).or d := by
  rw [getStringValue, findSome?_of_nodup _ h.nodes]
  rfl

theorem findKey_setKey_same (l : List IniKey) (k v : List UInt8) :
    findKey (setKey k v l) k = some v := by
  rw [findKey, setKey, find?_upsert_same (keepsKey_setKey k v)]
  cases l.find? (·.strKey = k) <;> rfl

theorem findKey_setKey_ne (l : List IniKey) {k k' : List UInt8} (v : List UInt8) (h : k' ≠ k) :
    findKey (setKey k v l) k' = findKey l k' := by
  rw [findKey, setKey, find?_upsert_ne (keepsKey_setKey k v) h, ← findKey]

/-- A write is an insertion. -/
theorem lookup_setStringValue (s : IniStore) (n k v : List UInt8) :
    lookup (s.setStringValue n k v) = IniMap.insert s.lookup n k v := by
  funext n' k'
  unfold IniMap.insert
  by_cases hn : n' = n
  · rw [hn, Function.update_self, lookup, setStringValue,
      find?_upsert_same (keepsKey_setStringValue n k v), Option.bind_some]
    by_cases hk : k' = k
    · rw [hk, Function.update_self]
      cases s.find? (·.strNode = n) with
      | none => exact findKey_setKey_same [] k v
      | some nd => exact findKey_setKey_same nd.lstKey k v
    · rw [Function.update_of_ne hk, lookup]
      cases s.find? (·.strNode = n) with
      | none => exact findKey_setKey_ne [] v hk
      | some nd => exact findKey_setKey_ne nd.lstKey v hk
  · rw [Function.update_of_ne hn, lookup, setStringValue,
      find?_upsert_ne (keepsKey_setStringValue n k v) hn, ← lookup]

/-- Where the node is that `delKey` changes: without the key there is nothing to erase. -/
theorem find?_delKey_same {s : IniStore} (h : Unique s) (n k : List UInt8) :
    (s.delKey n k).find? (·.strNode = n)
      = (s.find? (·.strNode = n)).map fun nd =>
        { nd with lstKey := nd.lstKey.eraseP (·.strKey = k) } := by
  induction s with
  | nil => rfl
  | cons nd s ih =>
    have hs : Unique s :=
      ⟨(List.nodup_cons.mp h.nodes).2, fun nd' hnd' => h.keys nd' (List.mem_cons_of_mem _ hnd')⟩
    have hnot := (List.nodup_cons.mp h.nodes).1
    unfold delKey
    by_cases hn : nd.strNode = n
    · split_ifs with hk
      · rw [List.find?_cons_of_pos (by simpa using hn), List.find?_cons_of_pos (by simpa using hn),
          Option.map_some]
      · have hkeep : nd.lstKey.eraseP (·.strKey = k) = nd.lstKey := by
          refine List.eraseP_of_forall_not fun st hst hst' => hk ⟨hn, ?_⟩
          exact List.any_eq_true.mpr ⟨st, hst, hst'⟩
        rw [List.find?_cons_of_pos (by simpa using hn), List.find?_cons_of_pos (by simpa using hn),
          Option.map_some, hkeep]
    · rw [if_neg fun hc => hn hc.1, List.find?_cons_of_neg (by simpa using hn),
        List.find?_cons_of_neg (by simpa using hn), ih hs]

theorem find?_delKey_ne (s : IniStore) {n n' : List UInt8} (k : List UInt8) (h : n' ≠ n) :
    (s.delKey n k).find? (·.strNode = n') = s.find? (·.strNode = n') := by
  induction s with
  | nil => rfl
  | cons nd s ih =>
    unfold delKey
    split_ifs with hc
    · have hne : ¬ nd.strNode = n' := fun he => h (he.symm.trans hc.1)
      rw [List.find?_cons_of_neg (by simpa using hne), List.find?_cons_of_neg (by simpa using hne)]
    · rw [List.find?_cons, List.find?_cons, ih]

/-- `delKey` erases a key. -/
theorem lookup_delKey {s : IniStore} (h : Unique s) (n k : List UInt8) :
    lookup (s.delKey n k) = IniMap.eraseKey s.lookup n k := by
  funext n' k'
  unfold IniMap.eraseKey
  by_cases hn : n' = n
  · rw [hn, Function.update_self, lookup, find?_delKey_same h]
    cases hnd : s.find? (·.strNode = n) with
    | none =>
      have hnone : s.lookup n = fun _ => none := by
        funext k''
        rw [lookup, hnd]
        rfl
      rw [hnone, Function.update_eq_self]
      rfl
    | some nd =>
      rw [Option.map_some, Option.bind_some]
      by_cases hk : k' = k
      · rw [hk, Function.update_self, findKey,
          find?_eraseP_same (h.keys nd (List.mem_of_find?_eq_some hnd))]
        rfl
      · rw [Function.update_of_ne hk, findKey, find?_eraseP_ne hk, lookup, hnd]
        rfl
  · rw [Function.update_of_ne hn, lookup, find?_delKey_ne s k hn, ← lookup]

/-- `delNode` erases all keys of a node. -/
theorem lookup_delNode {s : IniStore} (h : Unique s) (n : List UInt8) :
    lookup (s.delNode n) = IniMap.eraseNode s.lookup n := by
  funext n' k'
  unfold IniMap.eraseNode
  by_cases hn : n' = n
  · rw [hn, Function.update_self, lookup, delNode, find?_eraseP_same h.nodes]
    rfl
  · rw [Function.update_of_ne hn, lookup, delNode, find?_eraseP_ne hn, ← lookup]

/-- **One call does to the store what it does to the map.** -/
theorem lookup_step {s : IniStore} (h : Unique s) (op : Op) :
    lookup (s.step op) = IniMap.step s.lookup op := by
  cases op with
  | setStringValue n k v => exact lookup_setStringValue s n k v
  | delKey n k => exact lookup_delKey h n k
  | delNode n => exact lookup_delNode h n

/-- The store after some calls, and the map after the same calls. -/
theorem run_spec (ops : List Op) : Unique (run ops) ∧ lookup (run ops) = IniMap.run ops := by
  induction ops using List.reverseRecOn with
  | nil => exact ⟨unique_empty, rfl⟩
  | append_singleton ops op ih =>
    rw [run, IniMap.run, List.foldl_concat, List.foldl_concat, ← run, ← IniMap.run, ← ih.2]
    exact ⟨ih.1.step op, lookup_step ih.1 op⟩

/-- **The store refines the map.** After any calls, a read gives what the map has, or
the default, and no two nodes and no two keys of a node are equal. -/
theorem getStringValue_run (ops : List Op) :
    (∀ n k d, (run ops).getStringValue n k d = (IniMap.run ops n k).or d)
      ∧ ((run ops).map IniNode.strNode).Nodup
      ∧ ∀ nd ∈ run ops, (nd.lstKey.map IniKey.strKey).Nodup := by
  obtain ⟨hunique, hlookup⟩ := run_spec ops
  refine ⟨fun n k d => ?_, hunique.nodes, hunique.keys⟩
  rw [getStringValue_eq hunique, hlookup]

end IniStore
