import QService.ShakeHands

/-!
# What a handshake depends on

`parseShakeHands` goes through the lines of a request after the first one and
looks at those that name one of four headers. If each of them is named once,
only what these lines say counts: neither their order nor what stands between
them (`parseShakeHands_perm`).

The lines it is given are not those of the request alone. `shakeHands` takes
the request out of the read buffer as a C string, so the lines go on with what
lies behind it, and a header there counts as one of the request. Nothing
behind it counts exactly if the lines of the request are enough to leave the
function, or a NUL in it ends the string (`verdict_iff`).
-/

namespace WebSockParser

open QString EventBuffer

/-! ## The headers of a line -/

/-- The headers that `parseShakeHands` looks for. -/
inductive HandHeader
  | upgrade
  | connection
  | key
  | version
  deriving DecidableEq, Repr

/-- The header with the given name, in any case. -/
def HandHeader.ofName (strKey : List UInt8) : Option HandHeader :=
  if sameText strKey (ascii "Upgrade") then some .upgrade
  else if sameText strKey (ascii "Connection") then some .connection
  else if sameText strKey (ascii "Sec-WebSocket-Key") then some .key
  else if sameText strKey (ascii "Sec-WebSocket-Version") then some .version
  else none

/-- The value is one that the header may have. -/
def HandHeader.accepts : HandHeader → List UInt8 → Bool
  | upgrade, strVal => sameText strVal (ascii "websocket")
  | connection, strVal => sameText strVal (ascii "Upgrade")
  | key, _ => true
  | version, strVal => sameText strVal (ascii "13")

/-- The header that a line with exactly one colon names. -/
def headerName (line : List UInt8) : Option HandHeader :=
  if line.count 58 = 1 then HandHeader.ofName (trim (line.takeWhile (· ≠ 58))) else none

/-- What stands behind the colon. -/
def headerValue (line : List UInt8) : List UInt8 := trim (line.dropWhile (· ≠ 58)).tail

/-- What an accepted header leaves in the variables of the loop. -/
def HandHeaders.set (V : HandHeaders) (name : HandHeader) (strVal : List UInt8) : HandHeaders :=
  match name with
  | .upgrade => { V with bUpgrade := true }
  | .connection => { V with bConnection := true }
  | .key => { V with bKey := true, strRtn := strVal }
  | .version => { V with bVersion := true }

/-- `parseHeader` for a header with its value. -/
def HandHeaders.record (V : HandHeaders) (name : HandHeader) (strVal : List UInt8) :
    Option HandHeaders :=
  if name.accepts strVal then some (V.set name strVal) else none

/-- A line with one colon, around it. -/
theorem exists_colon {line : List UInt8} (h : line.count 58 = 1) :
    ∃ a b, line = a ++ 58 :: b ∧ (58 : UInt8) ∉ a ∧ (58 : UInt8) ∉ b := by
  have hmem : (58 : UInt8) ∈ line := List.count_pos_iff.mp (by omega)
  obtain ⟨a, b, rfl⟩ := List.append_of_mem hmem
  rw [List.count_append, List.count_cons_self] at h
  exact ⟨a, b, rfl, List.count_eq_zero.mp (by omega), List.count_eq_zero.mp (by omega)⟩

/-- The two parts of a line with one colon. -/
theorem split_colon {a b : List UInt8} (ha : (58 : UInt8) ∉ a) (hb : (58 : UInt8) ∉ b) :
    split (a ++ 58 :: b) [58] = [a, b]
      ∧ (a ++ 58 :: b).takeWhile (· ≠ 58) = a ∧ ((a ++ 58 :: b).dropWhile (· ≠ 58)).tail = b := by
  have hall : ∀ c ∈ a, decide (c ≠ 58) = true := by
    intro c hc
    refine decide_eq_true ?_
    rintro rfl
    exact ha hc
  refine ⟨?_, ?_, ?_⟩
  · rw [split_eq_pieces (by simp) (by simp), show a ++ 58 :: b = a ++ [58] ++ b by simp,
      pieces_append (by simp) (selfDelimiting_singleton 58), pieces_of_notMem ha,
      pieces_of_notMem hb]
    rfl
  · rw [List.takeWhile_append_of_pos hall, List.takeWhile_cons_of_neg (by decide), List.append_nil]
  · rw [List.dropWhile_append_of_pos hall, List.dropWhile_cons_of_neg (by decide)]
    rfl

/-- **A round of the loop** looks at the header that its line names. -/
theorem parseHeader_eq (V : HandHeaders) (line : List UInt8) :
    parseHeader V line = match headerName line with
      | none => some V
      | some name => V.record name (headerValue line) := by
  unfold parseHeader headerName headerValue
  by_cases hcount : line.count 58 = 1
  · obtain ⟨a, b, rfl, ha, hb⟩ := exists_colon hcount
    obtain ⟨hsplit, htake, hdrop⟩ := split_colon ha hb
    rw [if_neg (by simp), if_pos hcount, hsplit, htake, hdrop]
    dsimp only
    unfold HandHeader.ofName
    split_ifs <;> simp_all [HandHeaders.record, HandHeader.accepts, HandHeaders.set]
  · rw [if_neg hcount]
    split_ifs with hempty
    · rfl
    · have hlen : (split line [58]).length ≠ 2 := by
        rw [split_eq_pieces (by simp) hempty, length_pieces]
        omega
      split
      · rename_i hsplit
        rw [hsplit] at hlen
        exact absurd rfl hlen
      · rfl

theorem parseHeader_of_none {line : List UInt8} (h : headerName line = none) (V : HandHeaders) :
    parseHeader V line = some V := by
  rw [parseHeader_eq, h]

theorem parseHeader_of_some {line : List UInt8} {name : HandHeader}
    (h : headerName line = some name) (V : HandHeaders) :
    parseHeader V line = V.record name (headerValue line) := by
  rw [parseHeader_eq, h]

/-! ## The order of the lines -/

/-- Records of different headers do not get in each other's way. -/
theorem HandHeaders.record_comm {name name' : HandHeader} (hne : name ≠ name') (V : HandHeaders)
    (strVal strVal' : List UInt8) :
    (V.record name strVal).bind (·.record name' strVal')
      = (V.record name' strVal').bind (·.record name strVal) := by
  have hset : (V.set name strVal).set name' strVal' = (V.set name' strVal').set name strVal := by
    cases name <;> cases name' <;> first | rfl | exact absurd rfl hne
  unfold HandHeaders.record
  split_ifs
  · simp only [Option.bind_some, hset]
  · simp only [Option.bind_some, Option.bind_none]
  · simp only [Option.bind_some, Option.bind_none]
  · rfl

/-- The line names one of the four headers. -/
def IsHeader (line : List UInt8) : Prop := (headerName line).isSome = true

instance : DecidablePred IsHeader := fun line =>
  inferInstanceAs (Decidable ((headerName line).isSome = true))

/-- **Other lines do not count.** -/
theorem foldlM_filter_isHeader (V : HandHeaders) (lines : List (List UInt8)) :
    (lines.filter IsHeader).foldlM parseHeader V = lines.foldlM parseHeader V := by
  rw [List.foldlM_filter]
  refine congrArg (fun g => lines.foldlM g V) (funext fun V => funext fun line => ?_)
  split_ifs with hline
  · rfl
  · have hnone : headerName line = none := by
      rwa [decide_eq_true_eq, IsHeader, Bool.not_eq_true, Option.isSome_eq_false_iff,
        Option.isNone_iff_eq_none] at hline
    rw [parseHeader_of_none hnone]
    rfl

/-- No header is named by two lines. -/
def OncePerHeader (lines : List (List UInt8)) : Prop :=
  ∀ name : HandHeader, lines.countP (fun line => headerName line = some name) ≤ 1

theorem OncePerHeader.eq {lines : List (List UInt8)} (h : OncePerHeader lines) {name : HandHeader}
    {line line' : List UInt8} (hmem : line ∈ lines) (hmem' : line' ∈ lines)
    (hname : headerName line = some name) (hname' : headerName line' = some name) :
    line = line' := by
  have hlen := h name
  rw [List.countP_eq_length_filter] at hlen
  have hin : line ∈ lines.filter fun line => headerName line = some name :=
    List.mem_filter.mpr ⟨hmem, decide_eq_true hname⟩
  have hin' : line' ∈ lines.filter fun line => headerName line = some name :=
    List.mem_filter.mpr ⟨hmem', decide_eq_true hname'⟩
  generalize lines.filter (fun line => headerName line = some name) = found at hlen hin hin'
  match found, hlen with
  | [found], _ => rw [List.mem_singleton.mp hin, List.mem_singleton.mp hin']

/-- Lines that name different headers can be exchanged. -/
theorem parseHeader_comm {lines : List (List UInt8)} (h : OncePerHeader lines)
    {line line' : List UInt8} (hmem : line ∈ lines) (hmem' : line' ∈ lines) (V : HandHeaders) :
    (parseHeader V line).bind (parseHeader · line')
      = (parseHeader V line').bind (parseHeader · line) := by
  by_cases heq : line = line'
  · rw [heq]
  cases hname : headerName line with
  | none => simp [parseHeader_of_none hname]
  | some name =>
    cases hname' : headerName line' with
    | none => simp [parseHeader_of_none hname']
    | some name' =>
      have hne : name ≠ name' := by
        rintro rfl
        exact heq (h.eq hmem hmem' hname hname')
      simp only [parseHeader_of_some hname, parseHeader_of_some hname']
      exact HandHeaders.record_comm hne V _ _

/-- **The loop does not depend on the order of its lines.** -/
theorem foldlM_parseHeader_perm {l₁ l₂ : List (List UInt8)} (h : OncePerHeader l₁)
    (hperm : l₁.Perm l₂) (V : HandHeaders) :
    l₁.foldlM parseHeader V = l₂.foldlM parseHeader V := by
  rw [List.foldlM_eq_foldl, List.foldlM_eq_foldl]
  refine hperm.foldl_eq' (fun line hline line' hline' acc => ?_) _
  cases acc with
  | none => rfl
  | some V => exact parseHeader_comm h hline hline' V

theorem parseShakeHands_congr (first : List UInt8) {l₁ l₂ : List (List UInt8)}
    (h : ∀ V, l₁.foldlM parseHeader V = l₂.foldlM parseHeader V) :
    parseShakeHands (first :: l₁) = parseShakeHands (first :: l₂) := by
  unfold parseShakeHands
  dsimp only
  rw [h]

/-- **The order of the headers does not matter, and no other line does.** If
the lines name each header at most once, lists with the same header lines in
any order, and with any other lines between them, give the same result. -/
theorem parseShakeHands_perm (first : List UInt8) {lines lines' : List (List UInt8)}
    (honce : OncePerHeader lines)
    (hperm : (lines.filter IsHeader).Perm (lines'.filter IsHeader)) :
    parseShakeHands (first :: lines) = parseShakeHands (first :: lines') := by
  refine parseShakeHands_congr first fun V => ?_
  have honce' : OncePerHeader (lines.filter IsHeader) := fun name =>
    ((List.filter_sublist (l := lines)).countP_le).trans (honce name)
  calc lines.foldlM parseHeader V
      = (lines.filter IsHeader).foldlM parseHeader V := (foldlM_filter_isHeader V lines).symm
    _ = (lines'.filter IsHeader).foldlM parseHeader V := foldlM_parseHeader_perm honce' hperm V
    _ = lines'.foldlM parseHeader V := foldlM_filter_isHeader V lines'

/-- The four headers, and the same in another order with other lines between. -/
theorem parseShakeHands_reordered :
    parseShakeHands (["GET / HTTP/1.1", "Upgrade: websocket", "Connection: Upgrade",
        "Sec-WebSocket-Key: dGhlIHNhbXBsZSBub25jZQ==", "sec-websocket-version : 13"].map ascii)
      = parseShakeHands (["GET / HTTP/1.1", "Host: localhost:8080", "sec-websocket-version : 13",
        "", "Sec-WebSocket-Key: dGhlIHNhbXBsZSBub25jZQ==", "Upgrade", "Connection: Upgrade",
        "Upgrade: websocket"].map ascii) := by
  refine parseShakeHands_perm _ (fun name => ?_) ?_
  · cases name <;> decide +kernel
  · decide +kernel

/-! ## Lines that are refused -/

/-- The first line is one that `parseShakeHands` goes on after. -/
def GoodRequestLine (first : List UInt8) : Prop :=
  find (ascii "GET") first ≠ none
    ∧ (find (ascii "HTTP/1.1") first ≠ none ∨ find (ascii "HTTP/1.0") first ≠ none)

instance : DecidablePred GoodRequestLine := fun _ => inferInstanceAs (Decidable (_ ∧ (_ ∨ _)))

/-- The line names a header, with a value that is refused. -/
def RefusedLine (line : List UInt8) : Prop :=
  ∃ name, headerName line = some name ∧ name.accepts (headerValue line) = false

theorem parseHeader_eq_none_iff {V : HandHeaders} {line : List UInt8} :
    parseHeader V line = none ↔ RefusedLine line := by
  unfold RefusedLine
  rw [parseHeader_eq]
  cases headerName line with
  | none => simp
  | some name =>
    dsimp only
    unfold HandHeaders.record
    split_ifs with h <;> simp [h]

/-- The loop returns early exactly if there is a line that is refused. -/
theorem foldlM_parseHeader_eq_none_iff {lines : List (List UInt8)} {V : HandHeaders} :
    lines.foldlM parseHeader V = none ↔ ∃ line ∈ lines, RefusedLine line := by
  induction lines generalizing V with
  | nil => simp
  | cons line lines ih =>
    rw [List.foldlM_cons, List.exists_mem_cons_iff]
    cases h : parseHeader V line with
    | none => exact iff_of_true rfl (.inl (parseHeader_eq_none_iff.mp h))
    | some V' =>
      have hline : ¬ RefusedLine line := fun hr => by
        rw [parseHeader_eq_none_iff.mpr hr] at h
        cases h
      rw [or_iff_right hline]
      exact ih

/-- What the variables of the loop give after it. -/
def HandHeaders.result (V : HandHeaders) : List UInt8 :=
  if !V.bUpgrade || !V.bConnection || !V.bKey || !V.bVersion then [] else V.strRtn

theorem parseShakeHands_of_good {first : List UInt8} (h : GoodRequestLine first)
    (lines : List (List UInt8)) :
    parseShakeHands (first :: lines)
      = match lines.foldlM parseHeader ⟨false, false, false, false, []⟩ with
        | none => []
        | some V => V.result := by
  unfold parseShakeHands
  dsimp only
  rw [if_neg h.1, if_neg fun hnone => h.2.elim (· hnone.1) (· hnone.2)]
  rfl

theorem parseShakeHands_of_not_good {first : List UInt8} (h : ¬ GoodRequestLine first)
    (lines : List (List UInt8)) : parseShakeHands (first :: lines) = [] := by
  unfold parseShakeHands
  dsimp only
  split_ifs with hget hhttp
  · rfl
  · rfl
  · refine absurd ⟨hget, ?_⟩ h
    by_cases h₁ : find (ascii "HTTP/1.1") first = none
    · exact .inr fun h₀ => hhttp ⟨h₁, h₀⟩
    · exact .inl h₁

/-! ## What lies behind the request -/

/-- A request: what a read buffer holds up to and including its first empty line. -/
structure Request where
  head : List UInt8
  first : find endFlag (head ++ endFlag) = some head.length

namespace Request

/-- The bytes of the request. -/
def bytes (R : Request) : List UInt8 := R.head ++ endFlag

theorem find_bytes (R : Request) (rest : List UInt8) :
    find endFlag (R.bytes ++ rest) = some R.head.length :=
  find_append R.first rest

/-- A read buffer with an empty line holds a request. -/
theorem exists_of_find {buf : List UInt8} {pos : ℕ} (h : find endFlag buf = some pos) :
    ∃ (R : Request) (rest : List UInt8), buf = R.bytes ++ rest := by
  have hbuf := find_spec h
  have hfirst : find endFlag (buf.take pos ++ endFlag) = some (buf.take pos).length := by
    have hlen : (buf.take pos).length = pos :=
      List.length_take_of_le ((Nat.le_add_right _ _).trans (find_le h))
    cases hfind : find endFlag (buf.take pos ++ endFlag) with
    | none =>
      have hthere := find_ne_none endFlag (buf.take pos) []
      rw [List.append_nil] at hthere
      exact absurd hfind hthere
    | some pos' =>
      have hpos := find_append hfind (buf.drop (pos + endFlag.length))
      rw [← hbuf, h] at hpos
      rw [hlen, ← Option.some.inj hpos]
  exact ⟨⟨buf.take pos, hfirst⟩, buf.drop (pos + endFlag.length), hbuf⟩

/-- What `Q_Split` makes of the request. -/
def lines (R : Request) : List (List UInt8) := split R.bytes splitFlag

theorem split_bytes_append (R : Request) (rest : List UInt8) :
    split (R.bytes ++ rest) splitFlag
      = pieces splitFlag R.head ++ [] :: pieces splitFlag rest := by
  have hflag : splitFlag ≠ [] := by decide
  have hself : SelfDelimiting splitFlag := selfDelimiting_pair (by decide)
  have hne : R.bytes ++ rest ≠ [] := by simp [bytes, endFlag]
  have hbytes : R.bytes ++ rest = R.head ++ splitFlag ++ ([] ++ splitFlag ++ rest) := by
    simp [bytes, endFlag, splitFlag]
  rw [split_eq_pieces hflag hne, hbytes, pieces_append hflag hself, pieces_append hflag hself,
    pieces_of_find_none (find_nil_of_ne hflag)]
  rfl

/-- **The lines go on with those of what lies behind the request.** -/
theorem exists_lines (R : Request) :
    ∃ first headers, R.lines = first :: (headers ++ [[]])
      ∧ ∀ rest, split (R.bytes ++ rest) splitFlag
        = first :: (headers ++ pieces splitFlag rest) := by
  have hall := R.split_bytes_append
  have hflag : splitFlag ≠ [] := by decide
  obtain ⟨first, headers, hhead⟩ := exists_pieces hflag R.head
  refine ⟨first, headers ++ [[]], ?_, fun rest => ?_⟩
  · have hnil := hall []
    rw [List.append_nil, hhead, pieces_of_find_none (find_nil_of_ne hflag)] at hnil
    rw [lines, hnil]
    simp
  · rw [hall rest, hhead]
    simp

/-- **The request is enough to leave `parseShakeHands`**, or to end the string:
there is a NUL in it, its first line is not accepted, or one of its headers
has a value that is refused. -/
def LeavesEarly (R : Request) : Prop :=
  0 ∈ R.bytes ∨ ¬ GoodRequestLine (R.lines.headD [])
    ∨ ∃ line ∈ R.lines.tail, RefusedLine line

end Request

/-- What `shakeHands` answers to the lines. -/
def answer (sha1 : List UInt8 → List UInt8) (needReadLens : ℕ) (strVal : List UInt8) :
    ShakeHands :=
  if strVal = [] then .refuse
  else
    let strVal := createChallengeKey sha1 strVal
    if strVal = [] then .refuse
    else .accept (createHandshakeResponse strVal) needReadLens

/-- What `shakeHands` makes of a request. -/
theorem shakeHands_request (sha1 mem : List UInt8 → List UInt8) (R : Request)
    (rest : List UInt8) :
    shakeHands sha1 mem (R.bytes ++ rest)
      = answer sha1 R.bytes.length
          (parseShakeHands (split (cString (R.bytes ++ mem (R.bytes ++ rest))) splitFlag)) := by
  have hlen : R.head.length + endFlag.length = R.bytes.length := by simp [Request.bytes]
  unfold shakeHands
  rw [R.find_bytes]
  dsimp only
  rw [hlen, readBuffer_of_le (by simp [Request.bytes, endFlag]) (by simp), List.take_left]
  rfl

/-- The bytes that `readBuffer` gives are the front of the block that holds all
of the read buffer, and a NUL stands behind it. -/
def restOfBlock (buf : List UInt8) : List UInt8 :=
  match find endFlag buf with
  | none => []
  | some pos => buf.drop (pos + endFlag.length) ++ [0]

theorem restOfBlock_request (R : Request) (rest : List UInt8) :
    restOfBlock (R.bytes ++ rest) = rest ++ [0] := by
  have hlen : R.head.length + endFlag.length = R.bytes.length := by simp [Request.bytes]
  unfold restOfBlock
  rw [R.find_bytes]
  dsimp only
  rw [hlen, List.drop_left]

/-- Lines of text, each with its end. -/
def textLines (l : List String) : List UInt8 := l.flatMap fun line => ascii line ++ splitFlag

/-- Header lines that are accepted, for a client key. -/
def acceptedHeaders : List UInt8 :=
  textLines ["Upgrade: websocket", "Connection: Upgrade", "Sec-WebSocket-Key: a",
    "Sec-WebSocket-Version: 13"]

/-- A header line that is refused. -/
def refusedHeader : List UInt8 := textLines ["Upgrade: h2c"]

theorem foldlM_acceptedHeaders (V : HandHeaders) :
    (pieces splitFlag acceptedHeaders).foldlM parseHeader V
      = some ⟨true, true, true, true, ascii "a"⟩ := by
  have hpieces : pieces splitFlag acceptedHeaders
      = [ascii "Upgrade: websocket", ascii "Connection: Upgrade", ascii "Sec-WebSocket-Key: a",
        ascii "Sec-WebSocket-Version: 13", []] := by
    decide +kernel
  have hupgrade (V : HandHeaders) :
      parseHeader V (ascii "Upgrade: websocket") = some { V with bUpgrade := true } := rfl
  have hconnection (V : HandHeaders) :
      parseHeader V (ascii "Connection: Upgrade") = some { V with bConnection := true } := rfl
  have hkey (V : HandHeaders) : parseHeader V (ascii "Sec-WebSocket-Key: a")
      = some { V with bKey := true, strRtn := ascii "a" } := rfl
  have hversion (V : HandHeaders) :
      parseHeader V (ascii "Sec-WebSocket-Version: 13") = some { V with bVersion := true } := rfl
  rw [hpieces]
  simp only [List.foldlM_cons, List.foldlM_nil, hupgrade, hconnection, hkey, hversion]
  rfl

theorem foldlM_refusedHeader (V : HandHeaders) :
    (pieces splitFlag refusedHeader).foldlM parseHeader V = none := by
  refine foldlM_parseHeader_eq_none_iff.mpr ⟨ascii "Upgrade: h2c", by decide +kernel, .upgrade, ?_⟩
  decide +kernel

/-- A client key is answered. -/
theorem answer_ne_refuse {sha1 : List UInt8 → List UInt8} (hsha : ∀ s, (sha1 s).length = 20)
    {strVal : List UInt8} (h : strVal ≠ []) (n : ℕ) : answer sha1 n strVal ≠ .refuse := by
  have hkey : createChallengeKey sha1 strVal ≠ [] := by
    unfold createChallengeKey
    have hlen := hsha (strVal ++ ascii "258EAFA5-E914-47DA-95CA-C5AB0DC85B11")
    generalize sha1 (strVal ++ ascii "258EAFA5-E914-47DA-95CA-C5AB0DC85B11") = digest at hlen
    rcases digest with _ | ⟨a, _ | ⟨b, _ | ⟨c, digest⟩⟩⟩
    · cases hlen
    · cases hlen
    · cases hlen
    · simp [Base64.encode, Base64.group]
  unfold answer
  dsimp only
  rw [if_neg h, if_neg hkey]
  exact fun hrefuse => by cases hrefuse

/-- Two read buffers that hold the request, and then whatever bytes but NUL,
have the same verdict. -/
def VerdictFixed (sha1 mem : List UInt8 → List UInt8) (R : Request) : Prop :=
  ∀ rest rest', 0 ∉ rest → 0 ∉ rest' →
    shakeHands sha1 mem (R.bytes ++ rest) = shakeHands sha1 mem (R.bytes ++ rest')

/-- A request that leaves early is judged without what lies behind it. -/
theorem Request.LeavesEarly.verdictFixed {R : Request} (h : R.LeavesEarly)
    (sha1 mem : List UInt8 → List UInt8) : VerdictFixed sha1 mem R := by
  suffices hparse : ∀ s s', parseShakeHands (split (cString (R.bytes ++ s)) splitFlag)
      = parseShakeHands (split (cString (R.bytes ++ s')) splitFlag) by
    intro rest rest' _ _
    rw [shakeHands_request, shakeHands_request, hparse]
  intro s s'
  by_cases hzero : 0 ∈ R.bytes
  · rw [cString_append_of_mem hzero, cString_append_of_mem hzero]
  rw [cString_append_of_notMem hzero, cString_append_of_notMem hzero]
  obtain ⟨first, headers, hlines, hall⟩ := R.exists_lines
  rw [hall, hall]
  by_cases hfirst : GoodRequestLine first
  · unfold Request.LeavesEarly at h
    rw [hlines, List.headD_cons, List.tail_cons] at h
    obtain ⟨line, hmem, hline⟩ := (h.resolve_left hzero).resolve_left (not_not.mpr hfirst)
    have hheaders : ∃ line ∈ headers, RefusedLine line := by
      obtain hmem | hmem := List.mem_append.mp hmem
      · exact ⟨line, hmem, hline⟩
      · obtain ⟨name, hname, -⟩ := hline
        rw [List.mem_singleton.mp hmem] at hname
        cases hname
    have hnone (more : List (List UInt8)) :
        (headers ++ more).foldlM parseHeader ⟨false, false, false, false, []⟩ = none := by
      rw [List.foldlM_append, foldlM_parseHeader_eq_none_iff.mpr hheaders]
      rfl
    rw [parseShakeHands_of_good hfirst, parseShakeHands_of_good hfirst, hnone, hnone]
  · rw [parseShakeHands_of_not_good hfirst, parseShakeHands_of_not_good hfirst]

/-- A request that does not leave early is accepted or refused as the bytes
behind it say. -/
theorem Request.verdicts {R : Request} (h : ¬ R.LeavesEarly) {sha1 : List UInt8 → List UInt8}
    (hsha : ∀ s, (sha1 s).length = 20) :
    shakeHands sha1 restOfBlock (R.bytes ++ acceptedHeaders) ≠ .refuse
      ∧ shakeHands sha1 restOfBlock (R.bytes ++ refusedHeader) = .refuse := by
  unfold Request.LeavesEarly at h
  obtain ⟨first, headers, hlines, hall⟩ := R.exists_lines
  rw [hlines, List.headD_cons, List.tail_cons] at h
  obtain ⟨hzero, hfirst, hheaders⟩ := not_or.mp h |>.imp_right not_or.mp
  rw [not_not] at hfirst
  obtain ⟨V, hV⟩ : ∃ V, headers.foldlM parseHeader ⟨false, false, false, false, []⟩ = some V := by
    refine Option.ne_none_iff_exists'.mp fun hnone => hheaders ?_
    obtain ⟨line, hmem, hline⟩ := foldlM_parseHeader_eq_none_iff.mp hnone
    exact ⟨line, List.mem_append_left _ hmem, hline⟩
  have hparse {rest : List UInt8} (hrest : 0 ∉ rest) :
      parseShakeHands (split (cString (R.bytes ++ restOfBlock (R.bytes ++ rest))) splitFlag)
        = match (pieces splitFlag rest).foldlM parseHeader V with
          | none => []
          | some V => V.result := by
    rw [restOfBlock_request, cString_append_of_notMem hzero, cString_append_zero hrest, hall,
      parseShakeHands_of_good hfirst, List.foldlM_append, hV]
    rfl
  constructor
  · rw [shakeHands_request, hparse (by decide), foldlM_acceptedHeaders]
    exact answer_ne_refuse hsha (by decide) _
  · rw [shakeHands_request, hparse (by decide), foldlM_refusedHeader]
    rfl

/-- **The verdict depends only on the request exactly if the request leaves
early**: whatever memory lies behind it, and also if it is only the rest of the
read buffer. -/
theorem verdict_iff {sha1 : List UInt8 → List UInt8} (hsha : ∀ s, (sha1 s).length = 20)
    (R : Request) :
    ((∀ mem, VerdictFixed sha1 mem R) ↔ R.LeavesEarly)
      ∧ (VerdictFixed sha1 restOfBlock R ↔ R.LeavesEarly) := by
  have hblock (hfixed : VerdictFixed sha1 restOfBlock R) : R.LeavesEarly := by
    by_contra hlate
    obtain ⟨haccept, hrefuse⟩ := Request.verdicts hlate hsha
    exact haccept ((hfixed acceptedHeaders refusedHeader (by decide) (by decide)).trans hrefuse)
  exact ⟨⟨fun hfixed => hblock (hfixed restOfBlock), fun h mem => h.verdictFixed sha1 mem⟩,
    ⟨hblock, fun h => h.verdictFixed sha1 restOfBlock⟩⟩

/-- SHA-1 at the key `dGhlIHNhbXBsZSBub25jZQ==` with its suffix. -/
def sampleSha1 (_ : List UInt8) : List UInt8 :=
  [0xb3, 0x7a, 0x4f, 0x2c, 0xc0, 0x62, 0x4f, 0x16, 0x90, 0xf6, 0x46, 0x06, 0xcf, 0x38, 0x59, 0x45,
    0xb2, 0xbe, 0xc4, 0xea]

/-- A request that asks for another protocol. -/
def h2cRequest : Request :=
  ⟨textLines ["GET / HTTP/1.1"] ++ ascii "Upgrade: h2c", by decide +kernel⟩

theorem verdictFixed_h2cRequest : VerdictFixed sampleSha1 restOfBlock h2cRequest := by
  refine (verdict_iff (fun _ => rfl) h2cRequest).2.mpr (.inr (.inr ⟨ascii "Upgrade: h2c", ?_⟩))
  exact ⟨by decide +kernel, .upgrade, by decide +kernel, by decide +kernel⟩

/-- A request with the four headers. -/
def sampleRequest : Request :=
  ⟨textLines ["GET / HTTP/1.1", "Upgrade: websocket", "Connection: Upgrade",
      "Sec-WebSocket-Key: dGhlIHNhbXBsZSBub25jZQ=="] ++ ascii "Sec-WebSocket-Version: 13",
    by decide +kernel⟩

/-- Alone it is accepted, and with a header line behind it refused. -/
theorem not_verdictFixed_sampleRequest :
    (shakeHands sampleSha1 restOfBlock sampleRequest.bytes
        = .accept (createHandshakeResponse (ascii "s3pPLMBiTxaQ9kYGzzhZRbK+xOo="))
            sampleRequest.bytes.length
      ∧ shakeHands sampleSha1 restOfBlock (sampleRequest.bytes ++ refusedHeader) = .refuse)
    ∧ ¬∀ (sha1 mem : List UInt8 → List UInt8) (R : Request), (∀ s, (sha1 s).length = 20) →
      VerdictFixed sha1 mem R := by
  have haccept : shakeHands sampleSha1 restOfBlock sampleRequest.bytes
      = .accept (createHandshakeResponse (ascii "s3pPLMBiTxaQ9kYGzzhZRbK+xOo="))
          sampleRequest.bytes.length := by
    decide +kernel
  have hrefuse :
      shakeHands sampleSha1 restOfBlock (sampleRequest.bytes ++ refusedHeader) = .refuse := by
    decide +kernel
  refine ⟨⟨haccept, hrefuse⟩, fun hall => ?_⟩
  have hsame := hall sampleSha1 restOfBlock sampleRequest (fun _ => rfl) [] refusedHeader
    List.not_mem_nil (by decide)
  rw [List.append_nil, haccept, hrefuse] at hsame
  cases hsame

end WebSockParser
