import QService.SessionLife
import QService.CInt
import QService.QString

/-!
# The listeners of the configuration

`readConfig` reads five kinds of nodes into five maps from ports to
addresses, and `CServer::Init` opens a socket for each entry of the maps. The
listeners' sockets are the keys of a third map, from which an accepted
connection gets its session type.

The five loops of `readConfig` only fill the two variables `strIp` and
`usPort`; the entry is made behind the loop. So of each kind the last node is
read and the ones before it are lost without an error (`toList_readHosts`).
What is read is opened with the type of its kind (`Server.init_spec`), and the
configuration as a whole is served exactly if no kind has two nodes
(`serves_iff`).
-/

/-! ## The configuration file -/

/-- The kinds of nodes that name a port. -/
inductive NodeKind
  | debug
  | tcp
  | webSock
  | http
  | serverLink
  deriving DecidableEq, Repr

namespace NodeKind

/-- All kinds, in the order in which `readConfig` asks for them. -/
def all : List NodeKind := [debug, tcp, webSock, http, serverLink]

theorem mem_all (kind : NodeKind) : kind ∈ all := by
  cases kind <;> decide

/-- The type of the sessions that come in on a node's port. The HTTP server
has no sessions. -/
def sessionType : NodeKind → Option SessionType
  | debug => some .debug
  | tcp => some .tcp
  | webSock => some .webSock
  | http => none
  | serverLink => some .tcpClient

end NodeKind

/-- A node with its `child_value`s. -/
structure ServerNode where
  kind : NodeKind
  bindIP : List UInt8
  port : List UInt8
  deriving DecidableEq

/-- `(unsigned short)atoi(child_value("Port"))`. -/
def ServerNode.usPort (node : ServerNode) : ℕ :=
  (CInt.unsignedShort.cast (CInt.int.read node.port)).toNat

/-- What a node asks for: its kind, its port and its address. -/
def ServerNode.listens (node : ServerNode) : NodeKind × ℕ × List UInt8 :=
  (node.kind, node.usPort, node.bindIP)

/-- The node `ServerInfo`. -/
structure ServerInfo where
  name : List UInt8
  script : List UInt8
  timer : List UInt8

/-- The document: the nodes `ServerInfo` and the nodes with ports, each in
document order. -/
structure ServerXml where
  serverInfo : List ServerInfo
  nodes : List ServerNode

/-- `select_nodes("//Debug")` and so on. -/
def ServerXml.selectNodes (doc : ServerXml) (kind : NodeKind) : List ServerNode :=
  doc.nodes.filter (·.kind = kind)

/-! ## `readConfig` -/

/-- `std::map<unsigned short, std::string>`. -/
abbrev HostMap := Std.TreeMap ℕ (List UInt8)

/-- The variables of `readConfig` that all five loops use. -/
structure Scratch where
  strIp : List UInt8
  usPort : ℕ

/-- One of the five blocks: a loop over the nodes of a kind, and one
`insert`. -/
def readHosts (nodes : List ServerNode) (scratch : Scratch) : HostMap × Scratch :=
  if nodes.isEmpty then (∅, scratch)
  else
    let scratch := nodes.foldl (fun _ node => ⟨node.bindIP, node.usPort⟩) scratch
    (Std.TreeMap.insertIfNew ∅ scratch.usPort scratch.strIp, scratch)

/-- What `readConfig` fills in. -/
structure ServerSetup where
  strServerName : List UInt8
  uiMS : ℕ
  strLua : List UInt8
  mapDebug : HostMap
  mapTcp : HostMap
  mapWebSock : HostMap
  mapHttp : HostMap
  mapSVLink : HostMap

/-- The map of a kind. -/
def ServerSetup.hosts (setup : ServerSetup) : NodeKind → HostMap
  | .debug => setup.mapDebug
  | .tcp => setup.mapTcp
  | .webSock => setup.mapWebSock
  | .http => setup.mapHttp
  | .serverLink => setup.mapSVLink

/-- `readConfig`. There is no document if `load_file` fails. -/
def readConfig (acModulPath : List UInt8) : Option ServerXml → Option ServerSetup
  | none => none
  | some doc =>
    match doc.serverInfo with
    | [] => none
    | info :: _ =>
      let debug := readHosts (doc.selectNodes .debug) ⟨[], 0⟩
      let tcp := readHosts (doc.selectNodes .tcp) debug.2
      let webSock := readHosts (doc.selectNodes .webSock) tcp.2
      let http := readHosts (doc.selectNodes .http) webSock.2
      let svLink := readHosts (doc.selectNodes .serverLink) http.2
      some
        { strServerName := info.name
          uiMS := (CInt.unsignedInt.cast (CInt.int.read info.timer)).toNat
          strLua := acModulPath ++ info.script
          mapDebug := debug.1
          mapTcp := tcp.1
          mapWebSock := webSock.1
          mapHttp := http.1
          mapSVLink := svLink.1 }

/-- The loop leaves what the last node says. -/
theorem foldl_scratch (nodes : List ServerNode) (scratch : Scratch) :
    nodes.foldl (fun _ node => ⟨node.bindIP, node.usPort⟩) scratch
      = nodes.getLast?.elim scratch fun node => ⟨node.bindIP, node.usPort⟩ := by
  induction nodes generalizing scratch with
  | nil => rfl
  | cons node nodes ih =>
    rw [List.foldl_cons, ih, List.getLast?_cons]
    cases nodes.getLast? <;> rfl

/-- **Of each kind the last node is read**, whatever the loops before have
left in the variables. -/
theorem toList_readHosts (nodes : List ServerNode) (scratch : Scratch) :
    (readHosts nodes scratch).1.toList
      = nodes.getLast?.toList.map fun node => (node.usPort, node.bindIP) := by
  unfold readHosts
  split_ifs with hempty
  · rw [List.isEmpty_iff.mp hempty]
    rfl
  · obtain ⟨node, hlast⟩ : ∃ node, nodes.getLast? = some node :=
      Option.isSome_iff_exists.mp (by
        rw [List.getLast?_isSome]
        exact fun h => hempty (List.isEmpty_iff.mpr h))
    rw [foldl_scratch, hlast]
    rfl

/-- The entries of the maps, with their kinds. -/
def ServerSetup.handed (setup : ServerSetup) : List (NodeKind × ℕ × List UInt8) :=
  NodeKind.all.flatMap fun kind => (setup.hosts kind).toList.map (kind, ·)

theorem toList_hosts_readConfig {acModulPath : List UInt8} {doc : ServerXml} {setup : ServerSetup}
    (h : readConfig acModulPath (some doc) = some setup) (kind : NodeKind) :
    (setup.hosts kind).toList
      = (doc.selectNodes kind).getLast?.toList.map fun node => (node.usPort, node.bindIP) := by
  rw [readConfig] at h
  split at h
  · exact absurd h (by simp)
  · rw [← Option.some_inj.mp h]
    cases kind <;> exact toList_readHosts _ _

theorem mem_handed_readConfig {acModulPath : List UInt8} {doc : ServerXml} {setup : ServerSetup}
    (h : readConfig acModulPath (some doc) = some setup) {x : NodeKind × ℕ × List UInt8} :
    x ∈ setup.handed ↔ ∃ node, (doc.selectNodes x.1).getLast? = some node ∧ node.listens = x := by
  obtain ⟨kind, host⟩ := x
  simp only [ServerSetup.handed, List.mem_flatMap, List.mem_map, toList_hosts_readConfig h,
    Option.mem_toList, Prod.mk.injEq]
  constructor
  · rintro ⟨_, -, _, ⟨node, hlast, rfl⟩, rfl, rfl⟩
    have hkind := (List.mem_filter.mp (List.mem_of_getLast? hlast)).2
    exact ⟨node, hlast, by rw [ServerNode.listens, of_decide_eq_true hkind]⟩
  · rintro ⟨node, hlast, hlistens⟩
    exact ⟨kind, kind.mem_all, _, ⟨node, hlast, rfl⟩, rfl, congrArg Prod.snd hlistens⟩

/-! ## `CServer::Init` -/

/-- A listener: its socket, and what it is bound to. -/
structure Listener where
  fd : QSock
  usPort : ℕ
  strIp : List UInt8

/-- The parts of `CServer` with the sockets that `Init` opens. -/
structure Server where
  vcHttpSock : List QSock
  vcAllListener : List Listener
  mapType : Std.TreeMap QSock SessionType

/-- What `initHttpSock` and `initListener` get from the system: the socket
bound to an address, or nothing if something fails. Calls are told apart by the
number of sockets that are already open. -/
abbrev BindSock := ℕ → ℕ × List UInt8 → Option QSock

namespace Server

/-- `CServer` before `Init`. -/
def empty : Server := ⟨[], [], ∅⟩

/-- The sockets that are open. -/
def opened (server : Server) : ℕ :=
  server.vcHttpSock.length + server.vcAllListener.length

/-- The body of the loop over `mapHttp`. -/
def addHttpSock (bind : BindSock) (server : Server) (host : ℕ × List UInt8) : Option Server :=
  (bind server.opened host).map fun httpSock =>
    { server with vcHttpSock := server.vcHttpSock ++ [httpSock] }

/-- The body of the loops over the other maps, which differ in the type. -/
def addListener (bind : BindSock) (emType : SessionType) (server : Server)
    (host : ℕ × List UInt8) : Option Server :=
  (bind server.opened host).map fun fd =>
    { server with
      vcAllListener := server.vcAllListener ++ [⟨fd, host.1, host.2⟩]
      mapType := server.mapType.insertIfNew fd emType }

/-- The part of `CServer::Init` that opens the sockets, or nothing if one of
them cannot be opened. -/
def init (bind : BindSock) (setup : ServerSetup) : Option Server := do
  let server ← setup.mapHttp.toList.foldlM (addHttpSock bind) empty
  let server ← setup.mapDebug.toList.foldlM (addListener bind .debug) server
  let server ← setup.mapWebSock.toList.foldlM (addListener bind .webSock) server
  let server ← setup.mapTcp.toList.foldlM (addListener bind .tcp) server
  setup.mapSVLink.toList.foldlM (addListener bind .tcpClient) server

/-- `CServer::getSockType`. -/
def getSockType (server : Server) (sock : QSock) : SessionType :=
  (server.mapType[sock]?).getD .tcp

/-- `CServer::listenerAcceptCB`: what is sent to the worker, which makes a
session of it in `onMainSock`. A connection that comes in while the server does
not run is closed. -/
def listenerAcceptCB (server : Server) (running : Bool) (listener : Listener) (sock : QSock) :
    Option TriggerSock :=
  if running then some { iSock := sock, emType := server.getSockType listener.fd } else none

/-- Every socket can be opened, and no two calls get the same one. -/
structure Binds (bind : BindSock) : Prop where
  succeeds : ∀ n host, ∃ fd, bind n host = some fd
  distinct : ∀ {n n' host host' fd}, bind n host = some fd → bind n' host' = some fd → n = n'

/-- The listeners with the types of their sockets. -/
def tagged (server : Server) : List (SessionType × ℕ × List UInt8) :=
  server.vcAllListener.map fun listener =>
    (server.getSockType listener.fd, listener.usPort, listener.strIp)

/-- The sockets of the server are among those that were given out. -/
structure Issued (bind : BindSock) (server : Server) : Prop where
  listener : ∀ l ∈ server.vcAllListener, ∃ n < server.opened, ∃ host, bind n host = some l.fd
  mapType : ∀ fd ∈ server.mapType, ∃ n < server.opened, ∃ host, bind n host = some fd

variable {bind : BindSock} {server : Server}

theorem issued_empty : Issued bind empty where
  listener _ h := absurd h List.not_mem_nil
  mapType _ h := absurd h Std.TreeMap.not_mem_emptyc

/-- A socket for HTTP changes no listener. -/
theorem foldlM_addHttpSock (hb : Binds bind) (hi : server.Issued bind)
    (hosts : List (ℕ × List UInt8)) :
    ∃ server', hosts.foldlM (addHttpSock bind) server = some server' ∧ server'.Issued bind
      ∧ server'.tagged = server.tagged := by
  induction hosts generalizing server with
  | nil => exact ⟨server, rfl, hi, rfl⟩
  | cons host hosts ih =>
    obtain ⟨fd, hfd⟩ := hb.succeeds server.opened host
    have hstep : addHttpSock bind server host
        = some { server with vcHttpSock := server.vcHttpSock ++ [fd] } := by
      rw [addHttpSock, hfd]
      rfl
    have hlt : server.opened < opened { server with vcHttpSock := server.vcHttpSock ++ [fd] } := by
      simp only [opened, List.length_append, List.length_singleton]
      omega
    have hi' : Issued bind { server with vcHttpSock := server.vcHttpSock ++ [fd] } :=
      { listener := fun l hl => (hi.listener l hl).imp fun n hn => ⟨hn.1.trans hlt, hn.2⟩
        mapType := fun fd hfd => (hi.mapType fd hfd).imp fun n hn => ⟨hn.1.trans hlt, hn.2⟩ }
    obtain ⟨server', hrest, hissued, htagged⟩ := ih hi'
    refine ⟨server', ?_, hissued, htagged⟩
    rw [List.foldlM_cons, hstep]
    exact hrest

/-- **A listener gets the type of its loop**, and the ones before keep
theirs. -/
theorem addListener_spec (hb : Binds bind) (hi : server.Issued bind) (emType : SessionType)
    (host : ℕ × List UInt8) :
    ∃ server', addListener bind emType server host = some server' ∧ server'.Issued bind
      ∧ server'.tagged = server.tagged ++ [(emType, host)] := by
  obtain ⟨fd, hfd⟩ := hb.succeeds server.opened host
  have hfresh : fd ∉ server.mapType := fun hmem => by
    obtain ⟨n, hn, _, hbind⟩ := hi.mapType fd hmem
    exact hn.ne (hb.distinct hbind hfd)
  have hnew : (server.mapType.insertIfNew fd emType)[fd]? = some emType := by
    rw [Std.TreeMap.getElem?_insertIfNew, if_pos ⟨compare_eq_iff_eq.mpr rfl, hfresh⟩]
  have hold (l : Listener) (hl : l ∈ server.vcAllListener) :
      (server.mapType.insertIfNew fd emType)[l.fd]? = server.mapType[l.fd]? := by
    rw [Std.TreeMap.getElem?_insertIfNew, if_neg]
    rintro ⟨heq, -⟩
    obtain ⟨n, hn, _, hbind⟩ := hi.listener l hl
    exact hn.ne (hb.distinct hbind (compare_eq_iff_eq.mp heq ▸ hfd))
  refine ⟨_, by rw [addListener, hfd]; rfl, ⟨fun l hl => ?_, fun fd' hfd' => ?_⟩, ?_⟩
  · simp only [opened, List.length_append, List.length_singleton]
    obtain hl | hl := List.mem_append.mp hl
    · obtain ⟨n, hn, hbind⟩ := hi.listener l hl
      exact ⟨n, by unfold opened at hn; omega, hbind⟩
    · rw [List.mem_singleton.mp hl]
      exact ⟨server.opened, by unfold opened; omega, host, hfd⟩
  · simp only [opened, List.length_append, List.length_singleton]
    obtain heq | hmem := Std.TreeMap.mem_insertIfNew.mp hfd'
    · rw [← compare_eq_iff_eq.mp heq]
      exact ⟨server.opened, by unfold opened; omega, host, hfd⟩
    · obtain ⟨n, hn, hbind⟩ := hi.mapType fd' hmem
      exact ⟨n, by unfold opened at hn; omega, hbind⟩
  · simp only [tagged, getSockType, List.map_append, List.map_singleton, hnew]
    refine congrArg (· ++ _) (List.map_congr_left fun l hl => ?_)
    rw [hold l hl]

theorem foldlM_addListener (hb : Binds bind) (hi : server.Issued bind) (emType : SessionType)
    (hosts : List (ℕ × List UInt8)) :
    ∃ server', hosts.foldlM (addListener bind emType) server = some server'
      ∧ server'.Issued bind ∧ server'.tagged = server.tagged ++ hosts.map (emType, ·) := by
  induction hosts generalizing server with
  | nil => exact ⟨server, rfl, hi, (List.append_nil _).symm⟩
  | cons host hosts ih =>
    obtain ⟨server₁, hstep, hi₁, htagged₁⟩ := addListener_spec hb hi emType host
    obtain ⟨server₂, hrest, hi₂, htagged₂⟩ := ih hi₁
    refine ⟨server₂, ?_, hi₂, ?_⟩
    · rw [List.foldlM_cons, hstep]
      exact hrest
    · rw [htagged₂, htagged₁, List.append_assoc]
      rfl

/-- **Every entry of the maps is opened with the type of its map.** -/
theorem init_spec (hb : Binds bind) (setup : ServerSetup) :
    ∃ server, init bind setup = some server ∧ server.tagged
      = setup.mapDebug.toList.map (.debug, ·) ++ setup.mapWebSock.toList.map (.webSock, ·)
        ++ setup.mapTcp.toList.map (.tcp, ·) ++ setup.mapSVLink.toList.map (.tcpClient, ·) := by
  obtain ⟨s₁, h₁, hi₁, ht₁⟩ := foldlM_addHttpSock hb issued_empty setup.mapHttp.toList
  obtain ⟨s₂, h₂, hi₂, ht₂⟩ := foldlM_addListener hb hi₁ .debug setup.mapDebug.toList
  obtain ⟨s₃, h₃, hi₃, ht₃⟩ := foldlM_addListener hb hi₂ .webSock setup.mapWebSock.toList
  obtain ⟨s₄, h₄, hi₄, ht₄⟩ := foldlM_addListener hb hi₃ .tcp setup.mapTcp.toList
  obtain ⟨s₅, h₅, -, ht₅⟩ := foldlM_addListener hb hi₄ .tcpClient setup.mapSVLink.toList
  refine ⟨s₅, ?_, ?_⟩
  · simp only [init, h₁, h₂, h₃, h₄, h₅, Option.bind_eq_bind, Option.bind_some]
  · rw [ht₅, ht₄, ht₃, ht₂, ht₁]
    rfl

/-- The listeners are the entries of the maps that take sessions. -/
theorem mem_tagged_init (hb : Binds bind) {setup : ServerSetup} (h : init bind setup = some server)
    {emType : SessionType} {host : ℕ × List UInt8} :
    (emType, host) ∈ server.tagged
      ↔ ∃ kind : NodeKind, kind.sessionType = some emType ∧ (kind, host) ∈ setup.handed := by
  obtain ⟨server', hinit, htagged⟩ := init_spec hb setup
  obtain rfl : server' = server := Option.some_inj.mp (hinit.symm.trans h)
  have hhanded (kind : NodeKind) : (kind, host) ∈ setup.handed
      ↔ host ∈ (setup.hosts kind).toList := by
    simp only [ServerSetup.handed, List.mem_flatMap, List.mem_map, Prod.mk.injEq]
    exact ⟨fun ⟨_, _, _, hmem, hk, hh⟩ => hk ▸ hh ▸ hmem, fun hmem =>
      ⟨kind, kind.mem_all, host, hmem, rfl, rfl⟩⟩
  have htype (t : SessionType) (hosts : List (ℕ × List UInt8)) :
      (emType, host) ∈ hosts.map (t, ·) ↔ t = emType ∧ host ∈ hosts := by
    simp only [List.mem_map, Prod.mk.injEq]
    exact ⟨fun ⟨_, hmem, ht, hh⟩ => ⟨ht, hh ▸ hmem⟩, fun ⟨ht, hmem⟩ => ⟨host, hmem, ht, rfl⟩⟩
  simp only [htagged, List.mem_append, htype, hhanded]
  constructor
  · rintro (((⟨rfl, hmem⟩ | ⟨rfl, hmem⟩) | ⟨rfl, hmem⟩) | ⟨rfl, hmem⟩)
    · exact ⟨.debug, rfl, hmem⟩
    · exact ⟨.webSock, rfl, hmem⟩
    · exact ⟨.tcp, rfl, hmem⟩
    · exact ⟨.serverLink, rfl, hmem⟩
  · rintro ⟨kind, hkind, hmem⟩
    cases kind with
    | debug => exact .inl (.inl (.inl ⟨Option.some_inj.mp hkind, hmem⟩))
    | webSock => exact .inl (.inl (.inr ⟨Option.some_inj.mp hkind, hmem⟩))
    | tcp => exact .inl (.inr ⟨Option.some_inj.mp hkind, hmem⟩)
    | serverLink => exact .inr ⟨Option.some_inj.mp hkind, hmem⟩
    | http => simp [NodeKind.sessionType] at hkind

end Server

/-! ## What is served -/

/-- The configuration is served: the maps have the nodes of the file and
nothing else, each node that takes sessions has a listener, and an accepted
connection has the type of the node whose port it came in on. -/
structure Serves (bind : BindSock) (doc : ServerXml) (setup : ServerSetup) : Prop where
  handed : ∀ x, x ∈ setup.handed ↔ x ∈ doc.nodes.map ServerNode.listens
  listens : ∃ server, Server.init bind setup = some server
    ∧ (∀ node ∈ doc.nodes, ∀ emType, node.kind.sessionType = some emType →
      (emType, node.usPort, node.bindIP) ∈ server.tagged)
    ∧ ∀ listener ∈ server.vcAllListener, ∀ sock msg,
      server.listenerAcceptCB true listener sock = some msg →
        msg.iSock = sock ∧ ∃ node ∈ doc.nodes, node.usPort = listener.usPort
          ∧ node.kind.sessionType = some msg.emType

namespace ServerXml

/-- No kind has two nodes. -/
def OneEach (doc : ServerXml) : Prop :=
  ∀ kind, (doc.selectNodes kind).length ≤ 1

/-- The only node of its kind is the last one. -/
theorem OneEach.getLast?_eq {doc : ServerXml} (h : doc.OneEach) {node : ServerNode}
    (hnode : node ∈ doc.nodes) : (doc.selectNodes node.kind).getLast? = some node := by
  have hmem : node ∈ doc.selectNodes node.kind :=
    List.mem_filter.mpr ⟨hnode, decide_eq_true rfl⟩
  obtain ⟨node', hone⟩ := List.length_eq_one_iff.mp
    (le_antisymm (h node.kind) (List.length_pos_of_mem hmem))
  rw [hone] at hmem ⊢
  rw [List.mem_singleton.mp hmem]
  rfl

/-- Of two nodes of a kind one is lost, if their ports differ. -/
theorem oneEach_of_handed {acModulPath : List UInt8} {doc : ServerXml} {setup : ServerSetup}
    (h : readConfig acModulPath (some doc) = some setup)
    (hports : (doc.nodes.map ServerNode.usPort).Nodup)
    (hall : ∀ node ∈ doc.nodes, node.listens ∈ setup.handed) : doc.OneEach := by
  intro kind
  by_contra hlong
  have hnodup : ((doc.selectNodes kind).map ServerNode.usPort).Nodup :=
    (List.filter_sublist.map _).nodup hports
  obtain ⟨first, second, rest, hsplit⟩ : ∃ a b l, doc.selectNodes kind = a :: b :: l := by
    match hsel : doc.selectNodes kind with
    | [] => exact absurd (by rw [hsel]; decide) hlong
    | [_] => exact absurd (by rw [hsel]; exact le_rfl) hlong
    | a :: b :: l => exact ⟨a, b, l, rfl⟩
  have hfirst : first ∈ doc.selectNodes kind := by
    rw [hsplit]
    exact List.mem_cons_self
  obtain ⟨hmem, hkind⟩ := List.mem_filter.mp hfirst
  obtain ⟨last, hlast, hlistens⟩ := (mem_handed_readConfig h).mp (hall first hmem)
  have hport : last.usPort = first.usPort := congrArg (·.2.1) hlistens
  -- the last node is one of those behind the first
  have hlater : last ∈ second :: rest := by
    rw [ServerNode.listens, of_decide_eq_true hkind, hsplit, List.getLast?_cons_cons] at hlast
    exact List.mem_of_getLast? hlast
  rw [hsplit, List.map_cons, List.nodup_cons] at hnodup
  exact hnodup.1 (hport ▸ List.mem_map_of_mem hlater)

end ServerXml

/-- **A configuration is served exactly if no kind has two nodes.** -/
theorem serves_iff {acModulPath : List UInt8} {doc : ServerXml} {setup : ServerSetup}
    (h : readConfig acModulPath (some doc) = some setup)
    (hports : (doc.nodes.map ServerNode.usPort).Nodup) {bind : BindSock}
    (hb : Server.Binds bind) : Serves bind doc setup ↔ doc.OneEach := by
  constructor
  · exact fun hs => ServerXml.oneEach_of_handed h hports fun node hnode =>
      (hs.handed _).mpr (List.mem_map_of_mem hnode)
  · intro hone
    have hhanded : ∀ x, x ∈ setup.handed ↔ x ∈ doc.nodes.map ServerNode.listens := by
      intro x
      rw [mem_handed_readConfig h, List.mem_map]
      constructor
      · rintro ⟨node, hlast, hx⟩
        exact ⟨node, (List.mem_filter.mp (List.mem_of_getLast? hlast)).1, hx⟩
      · rintro ⟨node, hnode, rfl⟩
        exact ⟨node, hone.getLast?_eq hnode, rfl⟩
    obtain ⟨server, hinit, -⟩ := Server.init_spec hb setup
    refine ⟨hhanded, server, hinit, fun node hnode emType htype => ?_, ?_⟩
    · exact (Server.mem_tagged_init hb hinit).mpr
        ⟨node.kind, htype, (hhanded _).mpr (List.mem_map_of_mem hnode)⟩
    · rintro listener hl sock msg hmsg
      obtain rfl := Option.some_inj.mp hmsg
      obtain ⟨kind, htype, hmem⟩ := (Server.mem_tagged_init hb hinit).mp (List.mem_map_of_mem hl)
      obtain ⟨node, hnode, hlistens⟩ := List.mem_map.mp ((hhanded _).mp hmem)
      refine ⟨rfl, node, hnode, congrArg (·.2.1) hlistens, ?_⟩
      rw [show node.kind = kind from congrArg Prod.fst hlistens]
      exact htype

/-- A file with a node of each of two kinds, on the ports 80 and 81. -/
theorem serves_two_kinds :
    ∃ setup, readConfig []
        (some ⟨[⟨[], [], []⟩], [⟨.tcp, [], ascii "80"⟩, ⟨.http, [], ascii "81"⟩]⟩) = some setup
      ∧ Serves (fun n _ => some n)
          ⟨[⟨[], [], []⟩], [⟨.tcp, [], ascii "80"⟩, ⟨.http, [], ascii "81"⟩]⟩ setup := by
  refine ⟨_, rfl, (serves_iff rfl (by decide) ⟨fun n _ => ⟨n, rfl⟩, ?_⟩).mpr ?_⟩
  · intro n n' _ _ fd h h'
    exact Int.ofNat_inj.mp (Option.some_inj.mp (h.trans h'.symm))
  · intro kind
    cases kind <;> decide

/-- A file with two nodes `TCP`, of which the second one is read. -/
theorem not_serves_two_tcp :
    ¬∀ (acModulPath : List UInt8) (doc : ServerXml) (setup : ServerSetup) (bind : BindSock),
      readConfig acModulPath (some doc) = some setup → (doc.nodes.map ServerNode.usPort).Nodup →
        Server.Binds bind → Serves bind doc setup := by
  intro hall
  have hb : Server.Binds fun n _ => some n :=
    ⟨fun n _ => ⟨n, rfl⟩, fun h h' => Int.ofNat_inj.mp (Option.some_inj.mp (h.trans h'.symm))⟩
  have hserves := hall []
    ⟨[⟨[], [], []⟩], [⟨.tcp, [], ascii "80"⟩, ⟨.tcp, [], ascii "81"⟩]⟩ _ (fun n _ => some n) rfl
    (by decide) hb
  have hmem := (hserves.handed (.tcp, 80, [])).mpr (by decide)
  exact absurd hmem (by decide +kernel)
