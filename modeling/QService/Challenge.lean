import QService.Sha1
import QService.ShakeHands

/-!
# The digests of the program

A `CWebSockParser` has one `CSHA1`, and a `CEncrypt` another, which is set back before each
use. So the answer to a handshake is a matter of the request only, and it is the one with
`SHA1.hash`, whatever requests the parser has seen before (`handshakes_eq`).

`CEncrypt::sha1Str` makes its digest a C string. A digest with a byte 0 is cut there, and of
one without, the end is whatever lies behind the member in memory (`sha1Str_eq_hash_iff`).
-/

namespace WebSockParser

open QString EventBuffer

/-! ## The length of a key -/

theorem length_le_of_mem_splitLoop {flag p : List UInt8} {n : ℕ} {s : List UInt8}
    (h : p ∈ splitLoop flag n s) : p.length ≤ s.length := by
  induction n generalizing s with
  | zero =>
    rw [List.mem_singleton.mp h]
  | succ n ih =>
    rw [splitLoop] at h
    cases hfind : find flag s with
    | none =>
      rw [hfind] at h
      rw [List.mem_singleton.mp h]
    | some loc =>
      rw [hfind] at h
      rcases List.mem_cons.mp h with rfl | hmem
      · rw [List.length_take]
        exact Nat.min_le_right _ _
      · exact (ih hmem).trans (by rw [List.length_drop]; exact Nat.sub_le _ _)

theorem length_le_of_mem_split {p s flag : List UInt8} (h : p ∈ split s flag) :
    p.length ≤ s.length := by
  unfold split at h
  split_ifs at h
  · cases h
  · exact length_le_of_mem_splitLoop h

theorem length_trim_le (s : List UInt8) : (trim s).length ≤ s.length :=
  (List.dropWhile_suffix _).length_le.trans (trimRight_isPrefix s).length_le

/-- A header keeps the key, or sets it to a part of its line. -/
theorem length_strRtn_parseHeader {V V' : HandHeaders} {line : List UInt8} {b : ℕ}
    (h : parseHeader V line = some V') (hV : V.strRtn.length ≤ b) (hline : line.length ≤ b) :
    V'.strRtn.length ≤ b := by
  unfold parseHeader at h
  by_cases hnil : line = []
  · rw [if_pos hnil] at h
    cases h
    exact hV
  · rw [if_neg hnil] at h
    split at h
    · next first second hsplit =>
      have hsecond : second ∈ split line [58] := by
        rw [hsplit]
        exact List.mem_cons_of_mem _ (List.mem_singleton_self _)
      have hval := (length_trim_le second).trans ((length_le_of_mem_split hsecond).trans hline)
      dsimp only at h
      split_ifs at h <;> cases h <;> first | exact hV | exact hval
    · cases h
      exact hV

theorem length_strRtn_foldlM {lines : List (List UInt8)} {V V' : HandHeaders} {b : ℕ}
    (h : lines.foldlM parseHeader V = some V') (hV : V.strRtn.length ≤ b)
    (hlines : ∀ line ∈ lines, line.length ≤ b) : V'.strRtn.length ≤ b := by
  induction lines generalizing V with
  | nil =>
    cases h
    exact hV
  | cons line lines ih =>
    rw [List.foldlM_cons] at h
    obtain ⟨V₁, hhead, htail⟩ := Option.bind_eq_some_iff.mp h
    exact ih htail (length_strRtn_parseHeader hhead hV (hlines line (List.mem_cons_self ..)))
      fun l hl => hlines l (List.mem_cons_of_mem _ hl)

/-- **A key is no longer than the text it is in.** -/
theorem length_parseShakeHands_le (s flag : List UInt8) :
    (parseShakeHands (split s flag)).length ≤ s.length := by
  have hmem (line : List UInt8) (h : line ∈ split s flag) : line.length ≤ s.length :=
    length_le_of_mem_split h
  generalize split s flag = lstShakeHands at hmem ⊢
  unfold parseShakeHands
  split
  · exact Nat.zero_le _
  · next first lines =>
    split_ifs
    · exact Nat.zero_le _
    · exact Nat.zero_le _
    · split
      · exact Nat.zero_le _
      · next V hV =>
        split_ifs
        · exact Nat.zero_le _
        · exact length_strRtn_foldlM hV (Nat.zero_le _)
            fun l hl => hmem l (List.mem_cons_of_mem _ hl)

/-! ## The parser's object -/

/-- `CWebSockParser::createChallengeKey`, with `m_objSHA1` and what it leaves of it. -/
def objChallengeKey (objSHA1 : CSHA1.Object) (strKey : List UInt8) : List UInt8 × CSHA1.Object :=
  let strKey := strKey ++ ascii "258EAFA5-E914-47DA-95CA-C5AB0DC85B11"
  let objSHA1 := (objSHA1.Reset.Update strKey (UInt32.ofNat strKey.length)).Final
  (Base64.encode objSHA1.m_digest, objSHA1)

/-- `CWebSockParser::shakeHands`, with `m_objSHA1` and what it leaves of it. -/
def objShakeHands (mem : List UInt8 → List UInt8) (objSHA1 : CSHA1.Object) (buf : List UInt8) :
    ShakeHands × CSHA1.Object :=
  match find endFlag buf with
  | none => (.more, objSHA1)
  | some pos =>
    let needReadLens := pos + endFlag.length
    match readBuffer buf needReadLens with
    | none => (.more, objSHA1)
    | some pShakeHands =>
      let strVal := parseShakeHands (split (cString (pShakeHands ++ mem buf)) splitFlag)
      if strVal = [] then (.refuse, objSHA1)
      else
        let (strVal, objSHA1) := objChallengeKey objSHA1 strVal
        if strVal = [] then (.refuse, objSHA1)
        else (.accept (createHandshakeResponse strVal) needReadLens, objSHA1)

/-- The handshakes of a parser, one after the other, each with its read buffer. -/
def handshakes (mem : List UInt8 → List UInt8) : CSHA1.Object → List (List UInt8) → List ShakeHands
  | _, [] => []
  | objSHA1, buf :: bufs =>
    (objShakeHands mem objSHA1 buf).1 :: handshakes mem (objShakeHands mem objSHA1 buf).2 bufs

theorem objChallengeKey_eq {objSHA1 : CSHA1.Object} (hbuffer : objSHA1.m_buffer.length = 64)
    {strKey : List UInt8} (hlen : strKey.length ≤ 2 ^ 32 - 100) :
    (objChallengeKey objSHA1 strKey).1 = createChallengeKey SHA1.hash strKey
      ∧ (objChallengeKey objSHA1 strKey).2.m_buffer.length = 64 := by
  have hguid : (strKey ++ ascii "258EAFA5-E914-47DA-95CA-C5AB0DC85B11").length
      = strKey.length + 36 := List.length_append
  have hdigest := CSHA1.digest_one hbuffer
    (strKey ++ ascii "258EAFA5-E914-47DA-95CA-C5AB0DC85B11") (by omega)
  exact ⟨congrArg Base64.encode hdigest, List.length_replicate⟩

/-- One handshake. -/
theorem objShakeHands_eq {mem : List UInt8 → List UInt8} {objSHA1 : CSHA1.Object}
    (hbuffer : objSHA1.m_buffer.length = 64) {buf : List UInt8}
    (hlen : (buf ++ mem buf).length ≤ 2 ^ 32 - 100) :
    (objShakeHands mem objSHA1 buf).1 = shakeHands SHA1.hash mem buf
      ∧ (objShakeHands mem objSHA1 buf).2.m_buffer.length = 64 := by
  unfold objShakeHands shakeHands
  cases find endFlag buf with
  | none => exact ⟨rfl, hbuffer⟩
  | some pos =>
    dsimp only
    cases hread : readBuffer buf (pos + endFlag.length) with
    | none => exact ⟨rfl, hbuffer⟩
    | some pShakeHands =>
      have hkey : (parseShakeHands (split (cString (pShakeHands ++ mem buf)) splitFlag)).length
          ≤ 2 ^ 32 - 100 := by
        have hpart : pShakeHands.length ≤ buf.length := by
          unfold readBuffer at hread
          split_ifs at hread
          cases hread
          exact List.length_take_le' _ _
        rw [List.length_append] at hlen
        calc _ ≤ (cString (pShakeHands ++ mem buf)).length := length_parseShakeHands_le _ _
          _ ≤ (pShakeHands ++ mem buf).length := length_cString_le _
          _ ≤ 2 ^ 32 - 100 := by rw [List.length_append]; omega
      obtain ⟨heq, hobj⟩ := objChallengeKey_eq hbuffer hkey
      dsimp only
      split_ifs with hempty hrefuse hrefuse' hrefuse'
      · exact ⟨rfl, hbuffer⟩
      · exact ⟨rfl, hobj⟩
      · exact absurd (heq ▸ hrefuse) hrefuse'
      · exact absurd (heq ▸ hrefuse') hrefuse
      · exact ⟨by rw [heq], hobj⟩

/-- **Each of the handshakes is answered with the hash of its own key**, whatever the parser has
answered before. -/
theorem handshakes_eq {mem : List UInt8 → List UInt8} {objSHA1 : CSHA1.Object}
    (hbuffer : objSHA1.m_buffer.length = 64) {bufs : List (List UInt8)}
    (hlen : ∀ buf ∈ bufs, (buf ++ mem buf).length ≤ 2 ^ 32 - 100) :
    handshakes mem objSHA1 bufs = bufs.map (shakeHands SHA1.hash mem) := by
  induction bufs generalizing objSHA1 with
  | nil => rfl
  | cons buf bufs ih =>
    obtain ⟨heq, hobj⟩ := objShakeHands_eq hbuffer (hlen buf (List.mem_cons_self ..))
    rw [handshakes, List.map_cons, heq,
      ih hobj fun b hb => hlen b (List.mem_cons_of_mem _ hb)]

/-- The answer to a request that lies alone in the buffer, and has a key. -/
theorem shakeHands_of_key {sha1 : List UInt8 → List UInt8} (hsha1 : ∀ l, sha1 l ≠ [])
    {buf key : List UInt8} (hfind : (find endFlag buf).map (· + endFlag.length) = some buf.length)
    (hkey : parseShakeHands (split (cString buf) splitFlag) = key) (hne : key ≠ []) :
    shakeHands sha1 (fun _ => []) buf
      = .accept (createHandshakeResponse (createChallengeKey sha1 key)) buf.length := by
  obtain ⟨pos, hpos, hend⟩ := Option.map_eq_some_iff.mp hfind
  have hread : readBuffer buf buf.length = some buf := by
    rw [readBuffer_of_le _ le_rfl, List.take_length]
    rw [← hend]
    exact (Nat.add_pos_right pos (by decide)).ne'
  have hchallenge : createChallengeKey sha1 key ≠ [] := by
    intro hnil
    have hdecode := Base64.decodeLoop_encode
      (sha1 (key ++ ascii "258EAFA5-E914-47DA-95CA-C5AB0DC85B11"))
    rw [show Base64.encode _ = [] from hnil] at hdecode
    exact hsha1 _ hdecode.symm
  unfold shakeHands
  rw [hpos]
  dsimp only
  rw [hend, hread]
  dsimp only
  rw [List.append_nil, hkey, if_neg hne, if_neg hchallenge]

theorem hash_ne_nil (l : List UInt8) : SHA1.hash l ≠ [] := by
  intro h
  have hwords := congrArg List.length h
  rw [SHA1.hash, List.length_flatMap] at hwords
  simp [SHA1.Words.toList] at hwords

/-- A request with a key. -/
def keyRequest (key : List UInt8) : List UInt8 :=
  ascii "GET /chat HTTP/1.1\r\nHost: localhost\r\nUpgrade: websocket\r\nConnection: Upgrade\r\n"
    ++ ascii "Sec-WebSocket-Key: " ++ key ++ ascii "\r\nSec-WebSocket-Version: 13\r\n\r\n"

/-- Two requests are accepted, each with the hash of its own key, and what comes between them is
refused. -/
theorem handshakes_keyRequest :
    handshakes (fun _ => []) ⟨SHA1.init, ⟨24, 0⟩, List.replicate 64 97, []⟩
        [keyRequest (ascii "dGhlIHNhbXBsZSBub25jZQ=="), ascii "GET / HTTP/1.1\r\n\r\n",
          keyRequest (ascii "x3JJHMbDL1EzLkh9GBhXDw==")]
      = [.accept (createHandshakeResponse
            (createChallengeKey SHA1.hash (ascii "dGhlIHNhbXBsZSBub25jZQ=="))) 152,
          .refuse,
          .accept (createHandshakeResponse
            (createChallengeKey SHA1.hash (ascii "x3JJHMbDL1EzLkh9GBhXDw=="))) 152] := by
  rw [handshakes_eq List.length_replicate (by decide +kernel), List.map_cons, List.map_cons,
    List.map_cons, List.map_nil]
  have hfirst : shakeHands SHA1.hash (fun _ => []) (keyRequest (ascii "dGhlIHNhbXBsZSBub25jZQ=="))
      = .accept (createHandshakeResponse
          (createChallengeKey SHA1.hash (ascii "dGhlIHNhbXBsZSBub25jZQ=="))) 152 :=
    shakeHands_of_key hash_ne_nil (by decide +kernel) (by decide +kernel) (by decide)
  have hmid : shakeHands SHA1.hash (fun _ => []) (ascii "GET / HTTP/1.1\r\n\r\n") = .refuse := by
    decide +kernel
  have hlast : shakeHands SHA1.hash (fun _ => []) (keyRequest (ascii "x3JJHMbDL1EzLkh9GBhXDw=="))
      = .accept (createHandshakeResponse
          (createChallengeKey SHA1.hash (ascii "x3JJHMbDL1EzLkh9GBhXDw=="))) 152 :=
    shakeHands_of_key hash_ne_nil (by decide +kernel) (by decide +kernel) (by decide)
  rw [hfirst, hmid, hlast]

end WebSockParser

namespace CEncrypt

/-- `CEncrypt::sha1Str`, with `m_objSha1` and what it leaves of it, for the memory behind
`m_acSha`. -/
def sha1Str (mem : List UInt8) (objSha1 : CSHA1.Object) (strVal : List UInt8) :
    List UInt8 × CSHA1.Object :=
  let objSha1 := (objSha1.Reset.Update strVal (UInt32.ofNat strVal.length)).Final
  (cString (objSha1.m_digest ++ mem), objSha1)

theorem sha1Str_eq (mem : List UInt8) {objSha1 : CSHA1.Object}
    (hbuffer : objSha1.m_buffer.length = 64) {strVal : List UInt8}
    (hlen : strVal.length ≤ 2 ^ 32 - 64) :
    (sha1Str mem objSha1 strVal).1 = cString (SHA1.hash strVal ++ mem) := by
  exact congrArg (fun digest => cString (digest ++ mem)) (CSHA1.digest_one hbuffer strVal hlen)

/-- **When a script gets the hash of its text**: there must be no 0 in it, and one right behind. -/
theorem sha1Str_eq_hash_iff (mem : List UInt8) {objSha1 : CSHA1.Object}
    (hbuffer : objSha1.m_buffer.length = 64) {strVal : List UInt8}
    (hlen : strVal.length ≤ 2 ^ 32 - 64) :
    (sha1Str mem objSha1 strVal).1 = SHA1.hash strVal
      ↔ 0 ∉ SHA1.hash strVal ∧ cString mem = [] := by
  rw [sha1Str_eq mem hbuffer hlen]
  by_cases hzero : 0 ∈ SHA1.hash strVal
  · have hlt := length_cString_lt hzero
    rw [cString_append_of_mem hzero]
    refine ⟨fun heq => ?_, fun h => absurd hzero h.1⟩
    rw [heq] at hlt
    exact absurd hlt (lt_irrefl _)
  · rw [cString_append_of_notMem hzero, List.append_right_eq_self]
    exact ⟨fun h => ⟨hzero, h⟩, fun h => h.2⟩

theorem sha1Str_eq_hash_abc :
    (sha1Str [0] ⟨SHA1.init, .zero, List.replicate 64 0, []⟩ [97, 98, 99]).1
        = SHA1.hash [97, 98, 99]
      ↔ 0 ∉ SHA1.hash [97, 98, 99] ∧ cString [0] = [] :=
  sha1Str_eq_hash_iff [0] List.length_replicate (by decide)

end CEncrypt
