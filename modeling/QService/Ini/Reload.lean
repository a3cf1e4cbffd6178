import QService.Ini.File

/-!
# Stores that survive being saved and loaded

A store that was saved is loaded line by line. Here it is said which stores come
back as they were. In one direction the lines are followed: a node whose lines fit
is put at the end of the store that has been read so far, and a node without keys
leaves no trace. In the other direction it is enough to ask of a value where it was
read: only a line that fits gives it (`lookup_readLines`).

Nodes without keys need care. They are written, and their lines can do harm: cut at a
slash, or at the end of the buffer, the line `[a=b/c]` is taken for a key `[a`; and a
line that is too long hides everything behind it.
-/

namespace IniStore

open QString

/-- **The stores that survive.** Each node with keys fits, and so does each key with its
value. A node without keys does no harm: if its line is read, then it is taken for the
node or is skipped, and if it is too long, then no keys follow. -/
structure Survives (s : IniStore) : Prop where
  keys : ∀ nd ∈ s, ∀ st ∈ nd.lstKey, NameFits nd.strNode ∧ KeyFits st
  bare : ∀ l₁ nd l₂, s = l₁ ++ nd :: l₂ → nd.lstKey = [] →
    (∀ nd' ∈ l₁, nd'.strNode.length ≤ 1020) →
      (NameFits nd.strNode ∨ 61 ∉ namePart nd.strNode)
        ∧ (1020 < nd.strNode.length → ∀ nd' ∈ l₂, nd'.lstKey = [])

/-! ## Where a value was read -/

section Reading

variable {bs : List (List UInt8)} {st : List UInt8 × IniStore} {n k v : List UInt8}

/-- A round of the loop writes one value at most, under the node that is current. -/
theorem lookup_readLine {b : List UInt8} (h : lookup (readLine st b).2 n k = some v) :
    lookup st.2 n k = some v ∨ (parseLine b = .key k v ∧ n = st.1) := by
  unfold readLine at h
  cases hb : parseLine b with
  | skip =>
    rw [hb] at h
    exact .inl h
  | node m =>
    rw [hb] at h
    exact .inl h
  | key k' v' =>
    rw [hb] at h
    dsimp only at h
    rw [lookup_setStringValue] at h
    unfold IniMap.insert at h
    by_cases hn : n = st.1
    · subst hn
      rw [Function.update_self] at h
      by_cases hk : k = k'
      · subst hk
        rw [Function.update_self] at h
        exact .inr ⟨by rw [Option.some.inj h], rfl⟩
      · rw [Function.update_of_ne hk] at h
        exact .inl h
    · rw [Function.update_of_ne hn] at h
      exact .inl h

theorem fst_readLine (st : List UInt8 × IniStore) (b : List UInt8) :
    (readLine st b).1 = st.1 ∨ parseLine b = .node (readLine st b).1 := by
  unfold readLine
  cases parseLine b with
  | skip => exact .inl rfl
  | node m => exact .inr rfl
  | key k v => exact .inl rfl

/-- **A value that is found was there before, or was read in a line**, under a node that
was current before, or was read too. -/
theorem lookup_readLines (h : lookup (bs.foldl readLine st).2 n k = some v) :
    lookup st.2 n k = some v
      ∨ ∃ b ∈ bs, parseLine b = .key k v ∧ (n = st.1 ∨ ∃ b' ∈ bs, parseLine b' = .node n) := by
  induction bs generalizing st with
  | nil => exact .inl h
  | cons b bs ih =>
    rw [List.foldl_cons] at h
    rcases ih h with hfound | ⟨b₁, hb₁, hkey, hn⟩
    · rcases lookup_readLine hfound with hfound | ⟨hkey, hn⟩
      · exact .inl hfound
      · exact .inr ⟨b, List.mem_cons_self, hkey, .inl hn⟩
    · refine .inr ⟨b₁, List.mem_cons_of_mem _ hb₁, hkey, ?_⟩
      rcases hn with hn | ⟨b₂, hb₂, hnode⟩
      · rcases fst_readLine st b with hsame | hnode
        · exact .inl (hn.trans hsame)
        · exact .inr ⟨b, List.mem_cons_self, hn ▸ hnode⟩
      · exact .inr ⟨b₂, List.mem_cons_of_mem _ hb₂, hnode⟩

/-- What is found stays found. -/
theorem lookup_setStringValue_ne_none (s : IniStore) (n' k' v' : List UInt8)
    (h : lookup s n k ≠ none) : lookup (s.setStringValue n' k' v') n k ≠ none := by
  rw [lookup_setStringValue]
  unfold IniMap.insert
  by_cases hn : n = n'
  · rw [hn, Function.update_self]
    by_cases hk : k = k'
    · rw [hk, Function.update_self]
      exact Option.some_ne_none v'
    · rw [Function.update_of_ne hk, ← hn]
      exact h
  · rw [Function.update_of_ne hn]
    exact h

/-- Reading keeps what setting a value keeps. -/
theorem readLines_keep {I : IniStore → Prop}
    (hset : ∀ s n k v, I s → I (s.setStringValue n k v)) (bs : List (List UInt8))
    {st : List UInt8 × IniStore} (h : I st.2) : I (bs.foldl readLine st).2 := by
  induction bs generalizing st with
  | nil => exact h
  | cons b bs ih =>
    refine ih ?_
    unfold readLine
    cases parseLine b with
    | skip => exact h
    | node m => exact h
    | key k v => exact hset st.2 st.1 k v h

theorem lookup_readLines_ne_none (bs : List (List UInt8)) (h : lookup st.2 n k ≠ none) :
    lookup (bs.foldl readLine st).2 n k ≠ none :=
  readLines_keep (I := fun s => lookup s n k ≠ none)
    (fun s n' k' v' hs => lookup_setStringValue_ne_none s n' k' v' hs) bs h

/-- A line that is taken for a key leaves something under that key. -/
theorem exists_lookup_of_key {b : List UInt8} (hb : b ∈ bs) (h : parseLine b = .key k v)
    (st : List UInt8 × IniStore) : ∃ n, lookup (bs.foldl readLine st).2 n k ≠ none := by
  obtain ⟨bs₁, bs₂, rfl⟩ := List.append_of_mem hb
  rw [List.foldl_append, List.foldl_cons]
  set st₁ := bs₁.foldl readLine st
  refine ⟨st₁.1, lookup_readLines_ne_none bs₂ ?_⟩
  rw [readLine, h]
  dsimp only
  rw [lookup_setStringValue]
  unfold IniMap.insert
  rw [Function.update_self, Function.update_self]
  exact Option.some_ne_none v

end Reading

/-! ## What the lines of a store are taken for -/

/-- A line is skipped, or is taken for one of the nodes, which then fits, or for a key,
which then fits or starts as a node does. -/
theorem parseLine_cases {s : IniStore} (hs : Legal s) {l : List UInt8}
    (hl : l ∈ s.flatMap nodeLines) :
    parseLine (l.take lineRoom) = .skip
      ∨ (∃ nd ∈ s, NameFits nd.strNode ∧ parseLine (l.take lineRoom) = .node nd.strNode)
      ∨ ∃ k v, parseLine (l.take lineRoom) = .key k v ∧ (91 ∈ k ∨ (v ≠ [] → KeyFits ⟨k, v⟩)) := by
  obtain ⟨nd, hnd, hl⟩ := List.mem_flatMap.mp hl
  rcases List.mem_cons.mp hl with rfl | hl
  · by_cases hfit : NameFits nd.strNode
    · exact .inr (.inl ⟨nd, hnd, hfit, parseLine_of_nameFits (hs.nodes nd hnd) hfit⟩)
    · have h := parseLine_of_not_nameFits (hs.nodes nd hnd) hfit
      split_ifs at h
      · obtain ⟨k, v, hkey, hk⟩ := h
        exact .inr (.inr ⟨k, v, hkey, .inl hk⟩)
      · exact .inl h
  · obtain ⟨st, hst, rfl⟩ := List.mem_map.mp hl
    have hlegal := hs.keys nd hnd st hst
    have hpre := (text_isPrefix ((keyLine st).take lineRoom)).trans (List.take_prefix _ _)
    have h := (parseLine_keyLine hlegal).trans (classify_keyLine hlegal hpre)
    split_ifs at h
    · exact .inr (.inr ⟨_, _, h, .inr fun hv => fits_of_parseLine_keyLine hlegal h hv⟩)
    · exact .inl h

theorem parseLine_nil : parseLine [] = .skip := by
  decide

theorem newline_notMem {s : IniStore} (hs : Legal s) {l : List UInt8}
    (hl : l ∈ s.flatMap nodeLines) : 10 ∉ l := by
  obtain ⟨nd, hnd, hl⟩ := List.mem_flatMap.mp hl
  rcases List.mem_cons.mp hl with rfl | hl
  · simpa [nodeLine, show ascii "[" = [91] from rfl, show ascii "]" = [93] from rfl]
      using (hs.nodes nd hnd).newline
  · obtain ⟨st, hst, rfl⟩ := List.mem_map.mp hl
    have h := hs.keys nd hnd st hst
    simp [keyLine_eq, h.key.newline, h.value.newline]

/-- **What is loaded of a store that was saved.** -/
theorem readInfo_saveTo {s : IniStore} (hs : Legal s) :
    readInfo (saveTo s) = ((readable (s.flatMap nodeLines)).foldl readLine ([], empty)).2 := by
  rw [readInfo, saveTo, buffers_unlines (fun l hl => newline_notMem hs hl) (Nat.lt_succ_self _)]

theorem length_nodeLine (n : List UInt8) : (nodeLine n).length = n.length + 2 := by
  simp [nodeLine, show ascii "[" = [91] from rfl, show ascii "]" = [93] from rfl]

theorem length_keyLine (st : IniKey) :
    (keyLine st).length = st.strKey.length + st.strValue.length + 3 := by
  simp [keyLine_eq]
  omega

/-- The lines of a node fit if its name and its keys do. -/
theorem length_le_of_fits {nd : IniNode} (hname : nd.strNode.length ≤ 1020)
    (hkeys : ∀ st ∈ nd.lstKey, KeyFits st) : ∀ l ∈ nodeLines nd, l.length ≤ lineRoom := by
  intro l hl
  rcases List.mem_cons.mp hl with rfl | hl
  · rw [length_nodeLine]
    exact Nat.add_le_add_right hname 2
  · obtain ⟨st, hst, rfl⟩ := List.mem_map.mp hl
    rw [length_keyLine]
    exact Nat.add_le_add_right (hkeys st hst).2.2 3

/-! ## Stores that survive come back -/

/-- The keys of a node are read one after the other. -/
theorem foldl_readLine_keys {acc : IniStore} {n : List UInt8}
    (hn : n ∉ acc.map IniNode.strNode) (done : List IniKey) {sts : List IniKey}
    (hlegal : ∀ st ∈ sts, LegalKey st) (hfit : ∀ st ∈ sts, KeyFits st)
    (hnodup : ((done ++ sts).map IniKey.strKey).Nodup) :
    (sts.map keyLine).foldl readLine (n, acc ++ [⟨n, done⟩]) = (n, acc ++ [⟨n, done ++ sts⟩]) := by
  induction sts generalizing done with
  | nil => rw [List.map_nil, List.foldl_nil, List.append_nil]
  | cons st sts ih =>
    have hst := hlegal st List.mem_cons_self
    have hfst := hfit st List.mem_cons_self
    have htake : (keyLine st).take lineRoom = keyLine st := by
      refine List.take_of_length_le ?_
      rw [length_keyLine]
      exact Nat.add_le_add_right hfst.2.2 3
    have hnew : st.strKey ∉ done.map IniKey.strKey := by
      rw [List.map_append, List.map_cons] at hnodup
      intro hm
      exact (List.nodup_append.mp hnodup).2.2 _ hm _ List.mem_cons_self rfl
    have hset : setStringValue (acc ++ [⟨n, done⟩]) n st.strKey st.strValue
        = acc ++ [⟨n, done ++ [st]⟩] := by
      rw [setStringValue, upsert_append_singleton hn rfl, setKey, upsert_of_notMem hnew]
    have hline : readLine (n, acc ++ [⟨n, done⟩]) (keyLine st)
        = (n, acc ++ [⟨n, done ++ [st]⟩]) := by
      rw [readLine, ← htake, parseLine_of_keyFits hst hfst]
      exact congrArg (Prod.mk n) hset
    rw [List.map_cons, List.foldl_cons, hline,
      ih (done ++ [st]) (fun st' h => hlegal st' (List.mem_cons_of_mem _ h))
        (fun st' h => hfit st' (List.mem_cons_of_mem _ h)) (by simpa using hnodup)]
    rw [List.append_assoc]
    rfl

/-- **A node that fits is put at the end of what was read.** -/
theorem foldl_readLine_nodeLines {acc : IniStore} {nd : IniNode} (cur : List UInt8)
    (hnd : LegalName nd.strNode) (hkeys : ∀ st ∈ nd.lstKey, LegalKey st)
    (hname : NameFits nd.strNode) (hfit : ∀ st ∈ nd.lstKey, KeyFits st)
    (hn : nd.strNode ∉ acc.map IniNode.strNode) (hne : nd.lstKey ≠ [])
    (hnodup : (nd.lstKey.map IniKey.strKey).Nodup) :
    (nodeLines nd).foldl readLine (cur, acc) = (nd.strNode, acc ++ [nd]) := by
  have htake : (nodeLine nd.strNode).take lineRoom = nodeLine nd.strNode := by
    refine List.take_of_length_le ?_
    rw [length_nodeLine]
    exact Nat.add_le_add_right hname.2 2
  have hhead : readLine (cur, acc) (nodeLine nd.strNode) = (nd.strNode, acc) := by
    rw [readLine, ← htake, parseLine_of_nameFits hnd hname]
  obtain ⟨n, sts⟩ := nd
  cases sts with
  | nil => exact absurd rfl hne
  | cons st sts =>
    have hst := hkeys st List.mem_cons_self
    have hfst := hfit st List.mem_cons_self
    have hkeyTake : (keyLine st).take lineRoom = keyLine st := by
      refine List.take_of_length_le ?_
      rw [length_keyLine]
      exact Nat.add_le_add_right hfst.2.2 3
    have hfirst : readLine (n, acc) (keyLine st) = (n, acc ++ [⟨n, [st]⟩]) := by
      rw [readLine, ← hkeyTake, parseLine_of_keyFits hst hfst]
      exact congrArg (Prod.mk n) (upsert_of_notMem hn)
    rw [nodeLines, List.foldl_cons, hhead, List.map_cons, List.foldl_cons, hfirst]
    exact foldl_readLine_keys hn [st] (fun st' h => hkeys st' (List.mem_cons_of_mem _ h))
      (fun st' h => hfit st' (List.mem_cons_of_mem _ h)) hnodup

/-- A node without keys can be left out. -/
theorem lookup_append_bare {acc rest : IniStore} {nd : IniNode} (hnd : nd.lstKey = [])
    (hnodup : ((acc ++ nd :: rest).map IniNode.strNode).Nodup) :
    lookup (acc ++ nd :: rest) = lookup (acc ++ rest) := by
  funext n k
  rw [List.map_append, List.map_cons, List.nodup_middle, List.nodup_cons,
    ← List.map_append] at hnodup
  unfold lookup
  by_cases hn : nd.strNode = n
  · have hout := find?_eq_none_of_notMem (hn ▸ hnodup.1)
    have hacc : acc.find? (·.strNode = n) = none := by
      rw [List.find?_append] at hout
      exact (Option.or_eq_none_iff.mp hout).1
    rw [hout, List.find?_append, hacc, Option.none_or, List.find?_cons_of_pos (by simpa using hn)]
    show findKey nd.lstKey k = none
    rw [hnd]
    rfl
  · rw [List.find?_append, List.find?_append, List.find?_cons_of_neg (by simpa using hn)]

/-- So can any number of them. -/
theorem lookup_append_bares {acc nds : IniStore} (h : ∀ nd ∈ nds, nd.lstKey = [])
    (hnodup : ((acc ++ nds).map IniNode.strNode).Nodup) : lookup (acc ++ nds) = lookup acc := by
  induction nds with
  | nil => rw [List.append_nil]
  | cons nd nds ih =>
    have hsub : (acc ++ nds).Sublist (acc ++ nd :: nds) :=
      List.Sublist.append_left (List.sublist_cons_self nd nds) acc
    rw [lookup_append_bare (h nd List.mem_cons_self) hnodup,
      ih (fun nd' h' => h nd' (List.mem_cons_of_mem _ h')) (hnodup.sublist (hsub.map _))]

/-- The rest of a store that survives does so, if it is read at all. -/
theorem Survives.tail {nd : IniNode} {nds : IniStore} (h : Survives (nd :: nds))
    (hlen : nd.strNode.length ≤ 1020) : Survives nds where
  keys nd' hnd' := h.keys nd' (List.mem_cons_of_mem _ hnd')
  bare l₁ nd' l₂ hl hbare hl₁ := by
    refine h.bare (nd :: l₁) nd' l₂ (by rw [hl]; rfl) hbare fun nd'' hnd'' => ?_
    rcases List.mem_cons.mp hnd'' with rfl | hnd''
    · exact hlen
    · exact hl₁ nd'' hnd''

/-- **The nodes of a store that survives are found after those that were read before.**
The induction is on the nodes; `acc` is what has been read. -/
theorem lookup_foldl_readLine {nds : IniStore} (hlegal : Legal nds) (hs : Survives nds)
    (cur : List UInt8) {acc : IniStore} (hnodup : ((acc ++ nds).map IniNode.strNode).Nodup)
    (hkeys : ∀ nd ∈ nds, (nd.lstKey.map IniKey.strKey).Nodup) :
    lookup ((readable (nds.flatMap nodeLines)).foldl readLine (cur, acc)).2
      = lookup (acc ++ nds) := by
  induction nds generalizing cur acc with
  | nil =>
    rw [List.append_nil]
    show lookup (readLine (cur, acc) []).2 = _
    rw [readLine, parseLine_nil]
  | cons nd nds ih =>
    have hlegal' : Legal nds :=
      ⟨fun nd' h => hlegal.nodes nd' (List.mem_cons_of_mem _ h),
        fun nd' h => hlegal.keys nd' (List.mem_cons_of_mem _ h)⟩
    have hkeys' : ∀ nd' ∈ nds, (nd'.lstKey.map IniKey.strKey).Nodup :=
      fun nd' h => hkeys nd' (List.mem_cons_of_mem _ h)
    have hsub : (acc ++ nds).Sublist (acc ++ nd :: nds) :=
      List.Sublist.append_left (List.sublist_cons_self nd nds) acc
    have hnodup' := hnodup.sublist (hsub.map IniNode.strNode)
    rw [List.flatMap_cons]
    by_cases hbare : nd.lstKey = []
    · obtain ⟨hharm, hlong⟩ := hs.bare [] nd nds rfl hbare fun nd' h => absurd h List.not_mem_nil
      rw [lookup_append_bare hbare hnodup]
      have hlines : nodeLines nd = [nodeLine nd.strNode] := by rw [nodeLines, hbare]; rfl
      -- the line of the node changes at most which node is current
      have hread : ∃ cur',
          readLine (cur, acc) ((nodeLine nd.strNode).take lineRoom) = (cur', acc) := by
        have hnd := hlegal.nodes nd List.mem_cons_self
        by_cases hfit : NameFits nd.strNode
        · exact ⟨nd.strNode, by rw [readLine, parseLine_of_nameFits hnd hfit]⟩
        · have hskip := parseLine_of_not_nameFits hnd hfit
          rw [if_neg (hharm.resolve_left hfit)] at hskip
          exact ⟨cur, by rw [readLine, hskip]⟩
      obtain ⟨cur', hread⟩ := hread
      by_cases hlen : nd.strNode.length ≤ 1020
      · have hline : (nodeLine nd.strNode).length ≤ lineRoom := by
          rw [length_nodeLine]
          exact Nat.add_le_add_right hlen 2
        rw [List.take_of_length_le hline] at hread
        rw [hlines, List.singleton_append, readable, if_pos hline, List.foldl_cons, hread]
        exact ih hlegal' (hs.tail hlen) cur' hnodup' hkeys'
      · have hline : ¬ (nodeLine nd.strNode).length ≤ lineRoom := by
          rw [length_nodeLine, lineRoom]
          omega
        rw [hlines, List.singleton_append, readable, if_neg hline, List.foldl_cons, hread,
          lookup_append_bares (hlong (not_le.mp hlen)) hnodup']
        rfl
    · obtain ⟨st, hst⟩ := List.exists_mem_of_ne_nil _ hbare
      have hname := (hs.keys nd List.mem_cons_self st hst).1
      have hfit : ∀ st ∈ nd.lstKey, KeyFits st :=
        fun st h => (hs.keys nd List.mem_cons_self st h).2
      have hout : nd.strNode ∉ acc.map IniNode.strNode := by
        rw [List.map_append, List.map_cons] at hnodup
        exact fun hm => (List.nodup_append.mp hnodup).2.2 _ hm _ List.mem_cons_self rfl
      rw [readable_append (length_le_of_fits hname.2 hfit), List.foldl_append,
        foldl_readLine_nodeLines cur (hlegal.nodes nd List.mem_cons_self)
          (hlegal.keys nd List.mem_cons_self) hname hfit hout hbare
          (hkeys nd List.mem_cons_self)]
      rw [ih hlegal' (hs.tail hname.2) nd.strNode (by simpa using hnodup) hkeys', List.append_assoc]
      rfl

/-! ## Only these come back -/

theorem exists_of_lookup {s : IniStore} {n k v : List UInt8} (h : lookup s n k = some v) :
    ∃ nd ∈ s, nd.strNode = n ∧ ∃ st ∈ nd.lstKey, st.strKey = k ∧ st.strValue = v := by
  obtain ⟨nd, hnd, hkey⟩ := Option.bind_eq_some_iff.mp h
  obtain ⟨st, hst, hv⟩ := Option.map_eq_some_iff.mp hkey
  exact ⟨nd, List.mem_of_find?_eq_some hnd, by simpa using List.find?_some hnd, st,
    List.mem_of_find?_eq_some hst, by simpa using List.find?_some hst, hv⟩

theorem lookup_of_mem {s : IniStore} (hs : Unique s) {nd : IniNode} (hnd : nd ∈ s) {st : IniKey}
    (hst : st ∈ nd.lstKey) : lookup s nd.strNode st.strKey = some st.strValue := by
  rw [lookup, find?_of_mem hs.nodes hnd, Option.bind_some, findKey,
    find?_of_mem (hs.keys nd hnd) hst]
  rfl

theorem Unique.readLines (bs : List (List UInt8)) {st : List UInt8 × IniStore}
    (h : Unique st.2) : Unique (bs.foldl readLine st).2 :=
  readLines_keep (fun _ n k v hs => hs.setStringValue n k v) bs h

/-- **The store is the same after it was saved and loaded**, for every read. -/
def Reloads (s : IniStore) : Prop :=
  ∀ n k d, (readInfo (saveTo s)).getStringValue n k d = s.getStringValue n k d

theorem reloads_iff_lookup {s : IniStore} (hs : Unique s) :
    Reloads s ↔ lookup (readInfo (saveTo s)) = lookup s := by
  have hread : Unique (readInfo (saveTo s)) := Unique.readLines _ unique_empty
  constructor
  · intro h
    funext n k
    have := h n k none
    rwa [getStringValue_eq hread, getStringValue_eq hs, Option.or_none, Option.or_none] at this
  · intro h n k d
    rw [getStringValue_eq hread, getStringValue_eq hs, h]

section Necessary

variable {s : IniStore} (hs : Unique s) (hlegal : Legal s)
  (hsame : lookup (readInfo (saveTo s)) = lookup s)

include hs hlegal hsame

/-- A key of the store was read, and its node too. -/
theorem exists_buffers_of_mem {nd : IniNode} (hnd : nd ∈ s) {st : IniKey} (hst : st ∈ nd.lstKey) :
    (∃ b ∈ readable (s.flatMap nodeLines), parseLine b = .key st.strKey st.strValue)
      ∧ ∃ b ∈ readable (s.flatMap nodeLines), parseLine b = .node nd.strNode := by
  have hfound := (congrFun (congrFun hsame _) _).trans (lookup_of_mem hs hnd hst)
  rw [readInfo_saveTo hlegal] at hfound
  rcases lookup_readLines hfound with hfound | ⟨b, hb, hkey, hn | hnode⟩
  · cases hfound
  · exact absurd hn (hlegal.nodes nd hnd).nonempty
  · exact ⟨⟨b, hb, hkey⟩, hnode⟩

theorem fits_of_lookup {nd : IniNode} (hnd : nd ∈ s) {st : IniKey} (hst : st ∈ nd.lstKey) :
    NameFits nd.strNode ∧ KeyFits st := by
  have hst' := hlegal.keys nd hnd st hst
  obtain ⟨⟨b, hb, hkey⟩, ⟨b', hb', hnode⟩⟩ := exists_buffers_of_mem hs hlegal hsame hnd hst
  constructor
  · rcases mem_readable hb' with rfl | ⟨l, hl, rfl⟩
    · rw [parseLine_nil] at hnode
      cases hnode
    · rcases parseLine_cases hlegal hl with h | ⟨nd', hnd', hfit, h⟩ | ⟨k, v, h, -⟩
      · cases h.symm.trans hnode
      · rw [← Line.node.inj (h.symm.trans hnode)]
        exact hfit
      · cases h.symm.trans hnode
  · rcases mem_readable hb with rfl | ⟨l, hl, rfl⟩
    · rw [parseLine_nil] at hkey
      cases hkey
    · rcases parseLine_cases hlegal hl with h | ⟨nd', -, -, h⟩ | ⟨k, v, h, hfit⟩
      · cases h.symm.trans hkey
      · cases h.symm.trans hkey
      · obtain ⟨rfl, rfl⟩ := Line.key.inj (h.symm.trans hkey)
        rcases hfit with hfit | hfit
        · exact absurd hfit hst'.key.opening
        · exact hfit hst'.value.nonempty

/-- The line of a node without keys does no harm, if it is read. -/
theorem harmless_of_lookup {l₁ l₂ : IniStore} {nd : IniNode} (hl : s = l₁ ++ nd :: l₂)
    (hread : ∀ nd' ∈ l₁, nd'.strNode.length ≤ 1020) :
    NameFits nd.strNode ∨ 61 ∉ namePart nd.strNode := by
  have hmem : ∀ nd' ∈ l₁ ++ [nd], nd' ∈ s := fun nd' h => by
    rw [hl]
    simp only [List.mem_append, List.mem_cons] at h ⊢
    tauto
  have hnd := hlegal.nodes nd (hmem nd (by simp))
  by_contra hcon
  rw [not_or, not_not] at hcon
  have hkey := parseLine_of_not_nameFits hnd hcon.1
  rw [if_pos hcon.2] at hkey
  obtain ⟨k, v, hkey, hk⟩ := hkey
  -- the lines before it fit, so it is read
  have hbuf : (nodeLine nd.strNode).take lineRoom ∈ readable (s.flatMap nodeLines) := by
    have hfits : ∀ l ∈ l₁.flatMap nodeLines, l.length ≤ lineRoom := by
      intro l hm
      obtain ⟨nd', hnd', hm⟩ := List.mem_flatMap.mp hm
      refine length_le_of_fits (hread nd' hnd') (fun st hst => ?_) l hm
      exact (fits_of_lookup hs hlegal hsame (hmem nd' (List.mem_append_left _ hnd')) hst).2
    rw [hl, List.flatMap_append, List.flatMap_cons, readable_append hfits]
    refine List.mem_append_right _ ?_
    rw [nodeLines, List.cons_append, readable]
    split_ifs with hlen
    · rw [List.take_of_length_le hlen]
      exact List.mem_cons_self
    · exact List.mem_singleton_self _
  obtain ⟨n, hn⟩ := exists_lookup_of_key hbuf hkey ([], empty)
  rw [← readInfo_saveTo hlegal, hsame] at hn
  obtain ⟨v', hv'⟩ := Option.ne_none_iff_exists'.mp hn
  obtain ⟨nd', hnd', -, st, hst, rfl, -⟩ := exists_of_lookup hv'
  exact (hlegal.keys nd' hnd' st hst).key.opening hk

/-- Nothing can be behind a line that is too long. -/
theorem bare_of_lookup {l₁ l₂ : IniStore} {nd : IniNode} (hl : s = l₁ ++ nd :: l₂)
    (hlong : 1020 < nd.strNode.length) : ∀ nd' ∈ l₂, nd'.lstKey = [] := by
  intro nd' hnd'
  by_contra hne
  obtain ⟨st, hst⟩ := List.exists_mem_of_ne_nil _ hne
  have hmem : nd' ∈ s := by
    rw [hl]
    exact List.mem_append_right _ (List.mem_cons_of_mem _ hnd')
  obtain ⟨-, b, hb, hnode⟩ := exists_buffers_of_mem hs hlegal hsame hmem hst
  have hline : lineRoom < (nodeLine nd.strNode).length := by
    rw [length_nodeLine, lineRoom]
    omega
  have hsplit : s.flatMap nodeLines = l₁.flatMap nodeLines
      ++ nodeLine nd.strNode :: (nd.lstKey.map keyLine ++ l₂.flatMap nodeLines) := by
    rw [hl, List.flatMap_append, List.flatMap_cons]
    rfl
  rw [hsplit] at hb
  obtain ⟨l, hin, rfl⟩ := mem_readable_append_cons hline hb
  -- so it is the line of a node that comes before, with the same name
  have hsub : ∀ nd'' ∈ l₁ ++ [nd], nd'' ∈ s := fun nd'' h => by
    rw [hl]
    simp only [List.mem_append, List.mem_cons] at h ⊢
    tauto
  have hfront : Legal (l₁ ++ [nd]) :=
    ⟨fun nd'' h => hlegal.nodes nd'' (hsub nd'' h), fun nd'' h => hlegal.keys nd'' (hsub nd'' h)⟩
  have hin' : l ∈ (l₁ ++ [nd]).flatMap nodeLines := by
    rw [List.flatMap_append]
    rcases List.mem_append.mp hin with hin | hin
    · exact List.mem_append_left _ hin
    · refine List.mem_append_right _ (List.mem_flatMap.mpr ⟨nd, List.mem_singleton_self nd, ?_⟩)
      rw [List.mem_singleton.mp hin]
      exact List.mem_cons_self
  rcases parseLine_cases hfront hin' with h | ⟨nd'', hnd'', -, h⟩ | ⟨k, v, h, -⟩
  · cases h.symm.trans hnode
  · have hname : nd''.strNode = nd'.strNode := Line.node.inj (h.symm.trans hnode)
    have hnodup := hs.nodes
    rw [hl, List.append_cons, List.map_append] at hnodup
    exact (List.nodup_append.mp hnodup).2.2 _ (List.mem_map_of_mem hnd'') _
      (List.mem_map_of_mem hnd') hname
  · cases h.symm.trans hnode

end Necessary

/-- **A store that was saved comes back if and only if it survives.** -/
theorem reload_iff (ops : List Op) (hlegal : Legal (run ops)) :
    Reloads (run ops) ↔ Survives (run ops) := by
  have hs := (run_spec ops).1
  rw [reloads_iff_lookup hs]
  constructor
  · intro hsame
    refine ⟨fun nd hnd st hst => fits_of_lookup hs hlegal hsame hnd hst,
      fun l₁ nd l₂ hl _ hread => ?_⟩
    exact ⟨harmless_of_lookup hs hlegal hsame hl hread,
      fun hlong => bare_of_lookup hs hlegal hsame hl hlong⟩
  · intro hsurv
    rw [readInfo_saveTo hlegal]
    exact lookup_foldl_readLine hlegal hsurv [] hs.nodes hs.keys

/-- A store with one key. -/
theorem legal_single {n k v : List UInt8} (hn : LegalName n) (hk : LegalName k) (heq : 61 ∉ k)
    (hv : LegalText v) : Legal (run [.setStringValue n k v]) := by
  refine ⟨fun nd hnd => ?_, fun nd hnd st hst => ?_⟩
  · rw [List.mem_singleton.mp hnd]
    exact hn
  · rw [List.mem_singleton.mp hnd] at hst
    rw [List.mem_singleton.mp hst]
    exact ⟨hk, heq, hv⟩

/-- Keys in several nodes: one is set twice, one is deleted, and `sub2` is left without keys. -/
def settings : List Op :=
  [.setStringValue (ascii "main") (ascii "maind") (ascii "3"),
    .setStringValue (ascii "sub") (ascii "suba") (ascii "10"),
    .setStringValue (ascii "sub") (ascii "sub b") (ascii "a = b [c]"),
    .setStringValue (ascii "sub2") (ascii "x") (ascii "1"),
    .delKey (ascii "sub2") (ascii "x"),
    .setStringValue (ascii "main") (ascii "maind") (ascii "change main d"),
    .delKey (ascii "sub") (ascii "suba"),
    .setStringValue (ascii "sub3") (ascii "subc") (ascii "12")]

theorem legal_settings : Legal (run settings) := by
  have hkeys : ∀ nd ∈ run settings, ∀ st ∈ nd.lstKey,
      LegalName st.strKey ∧ 61 ∉ st.strKey ∧ LegalText st.strValue := by decide +kernel
  refine ⟨by decide +kernel, fun nd hnd st hst => ?_⟩
  obtain ⟨hkey, hequals, hvalue⟩ := hkeys nd hnd st hst
  exact ⟨hkey, hequals, hvalue⟩

/-- They come back. -/
theorem reloads_settings : Legal (run settings) ∧ Reloads (run settings) := by
  have hnodes : ∀ nd ∈ run settings, NameFits nd.strNode := by
    unfold NameFits
    decide +kernel
  have hkeys : ∀ nd ∈ run settings, ∀ st ∈ nd.lstKey, KeyFits st := by
    unfold KeyFits
    decide +kernel
  refine ⟨legal_settings, (reload_iff settings legal_settings).mpr
    ⟨fun nd hnd st hst => ⟨hnodes nd hnd, hkeys nd hnd st hst⟩, fun l₁ nd l₂ hl _ _ => ?_⟩⟩
  have hfits := hnodes nd (hl ▸ List.mem_append_right _ List.mem_cons_self)
  exact ⟨.inl hfits, fun hlong => absurd hfits.2 hlong.not_ge⟩

/-- A key with a path. -/
def pathOp : List Op := [.setStringValue (ascii "main") (ascii "path") (ascii "a/b")]

/-- **A slash in a value cuts it**: the value `a/b` comes back as `a`. -/
theorem reload_slash :
    Legal (run pathOp)
      ∧ (run pathOp).getStringValue (ascii "main") (ascii "path") none = some (ascii "a/b")
      ∧ (readInfo (saveTo (run pathOp))).getStringValue (ascii "main") (ascii "path") none
        = some (ascii "a")
      ∧ ¬ Reloads (run pathOp) := by
  have hread : (readInfo (saveTo (run pathOp))).getStringValue (ascii "main") (ascii "path") none
      = some (ascii "a") := by decide +kernel
  refine ⟨legal_single (by decide) (by decide) (by decide) (by decide), by decide +kernel, hread,
    fun h => ?_⟩
  have := (h (ascii "main") (ascii "path") none).symm.trans hread
  exact absurd this (by decide +kernel)

end IniStore
