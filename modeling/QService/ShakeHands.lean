import QService.Base64
import QService.Session

/-!
# The WebSocket handshake

`CWebSockParser::shakeHands` waits for the empty line that ends a request,
splits the request into lines, looks for the four headers it needs, and
answers with a key made from the client's.

The request is taken out of the read buffer as a C string, from a block in
which only its own bytes are known to be in place. So the text that is split
goes on with whatever lies behind the request in memory, up to the next NUL:
the bytes that came with it, or older ones. This memory is a parameter, and
SHA-1 is another.
-/

namespace WebSockParser

open QString EventBuffer

/-- `WebSock_ShakeHands_EndFlag`. -/
def endFlag : List UInt8 := [13, 10, 13, 10]

/-- `ShakeHands_SplitFlag`. -/
def splitFlag : List UInt8 := [13, 10]

/-- The variables of the loop in `parseShakeHands`. -/
structure HandHeaders where
  bUpgrade : Bool
  bConnection : Bool
  bKey : Bool
  bVersion : Bool
  strRtn : List UInt8
  deriving DecidableEq, Repr

/-- One round of the loop in `parseShakeHands`; `none` when it returns the empty
string. -/
def parseHeader (V : HandHeaders) (line : List UInt8) : Option HandHeaders :=
  if line = [] then some V
  else
    match split line [58] with
    | [first, second] =>
      let strKey := trim first
      let strVal := trim second
      if sameText strKey (ascii "Upgrade") then
        if sameText strVal (ascii "websocket") then some { V with bUpgrade := true } else none
      else if sameText strKey (ascii "Connection") then
        if sameText strVal (ascii "Upgrade") then some { V with bConnection := true } else none
      else if sameText strKey (ascii "Sec-WebSocket-Key") then
        some { V with bKey := true, strRtn := strVal }
      else if sameText strKey (ascii "Sec-WebSocket-Version") then
        if sameText strVal (ascii "13") then some { V with bVersion := true } else none
      else some V
    | _ => some V

/-- `CWebSockParser::parseShakeHands`. -/
def parseShakeHands (lstShakeHands : List (List UInt8)) : List UInt8 :=
  match lstShakeHands with
  | [] => []
  | first :: lines =>
    if find (ascii "GET") first = none then []
    else if find (ascii "HTTP/1.1") first = none ∧ find (ascii "HTTP/1.0") first = none then []
    else
      match lines.foldlM parseHeader ⟨false, false, false, false, []⟩ with
      | none => []
      | some V =>
        if !V.bUpgrade || !V.bConnection || !V.bKey || !V.bVersion then [] else V.strRtn

/-- `CWebSockParser::createChallengeKey`. `GetHash` succeeds after `Final`. -/
def createChallengeKey (sha1 : List UInt8 → List UInt8) (strKey : List UInt8) : List UInt8 :=
  Base64.encode (sha1 (strKey ++ ascii "258EAFA5-E914-47DA-95CA-C5AB0DC85B11"))

/-- `CWebSockParser::createHandshakeResponse`. The version of the program is
`1-0-5`. -/
def createHandshakeResponse (strKey : List UInt8) : List UInt8 :=
  ascii "HTTP/1.1 101 Switching Protocols\r\n"
    ++ ascii "Upgrade: websocket\r\n"
    ++ ascii "Connection: Upgrade\r\n"
    ++ ascii "Server: QServer version:1-0-5\r\n"
    ++ ascii "Sec-WebSocket-Accept: " ++ strKey ++ splitFlag
    ++ ascii "Sec-WebSocket-Origin: null\r\n"
    ++ splitFlag

/-- `CWebSockParser::shakeHands`, for SHA-1 and the memory that lies behind the
request when the read buffer holds the given bytes. -/
def shakeHands (sha1 : List UInt8 → List UInt8) (mem : List UInt8 → List UInt8)
    (buf : List UInt8) : ShakeHands :=
  match find endFlag buf with
  | none => .more
  | some pos =>
    let needReadLens := pos + endFlag.length
    match readBuffer buf needReadLens with
    | none => .more
    | some pShakeHands =>
      let strVal := parseShakeHands (split (cString (pShakeHands ++ mem buf)) splitFlag)
      if strVal = [] then .refuse
      else
        let strVal := createChallengeKey sha1 strVal
        if strVal = [] then .refuse
        else .accept (createHandshakeResponse strVal) needReadLens

/-- **A valid handshake request**: all of it is accepted when nothing lies behind
it. -/
def ValidRequest (sha1 : List UInt8 → List UInt8) (H : List UInt8) : Prop :=
  ∃ response, shakeHands sha1 (fun _ => []) H = .accept response H.length

theorem find_of_accept {sha1 mem : List UInt8 → List UInt8} {buf response : List UInt8} {n : ℕ}
    (h : shakeHands sha1 mem buf = .accept response n) :
    ∃ pos, find endFlag buf = some pos ∧ n = pos + endFlag.length := by
  unfold shakeHands at h
  split at h
  · cases h
  · rename_i pos hpos
    refine ⟨pos, hpos, ?_⟩
    dsimp only at h
    split at h
    · cases h
    · split_ifs at h
      cases h
      rfl

/-- **A handshake takes the request off the stream, and nothing else**: whatever
memory there is, and however much of what follows has arrived. -/
theorem accept_eq_length {sha1 mem : List UInt8 → List UInt8} {H buf more F response : List UInt8}
    {n : ℕ} (hH : ValidRequest sha1 H) (hbuf : buf ++ more = H ++ F)
    (h : shakeHands sha1 mem buf = .accept response n) : n = H.length ∧ n ≤ buf.length := by
  obtain ⟨response', hvalid⟩ := hH
  obtain ⟨pos, hpos, hn⟩ := find_of_accept h
  obtain ⟨pos', hpos', hn'⟩ := find_of_accept hvalid
  -- both occurrences are the first one of the whole stream
  have h₁ := find_append hpos more
  have h₂ := find_append hpos' F
  rw [hbuf, h₂] at h₁
  refine ⟨?_, hn ▸ find_le hpos⟩
  rw [hn, hn', Option.some.inj h₁]

end WebSockParser
