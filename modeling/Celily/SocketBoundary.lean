import Celily.MountBoundary

/-!
# Where proxied sockets are

The socket of a proxy device is canonical and out of the reach of every read-write
mount of its context. It is in the home or the runtime directory, and on no line with
a sensitive directory there, unless `$XDG_RUNTIME_DIR` is empty: every path is under
an empty one, and nothing sensitive is.
-/

namespace SocketBoundary

open RustText HostPaths PathResolution HostFiles HomeSymlinks MountValidation Devices
open Configuration ContextResolution InstanceNames ProxySockets MountBoundary

/-! ## What is accepted -/

/-- Everything that is asked of a socket, except where it is. -/
def Passes (host : Host) (connect : Text) (home : Canonical) (mounts : List (Mount Canonical))
    (socket : Canonical) : Prop :=
  ∃ path, stripPrefix "unix:".toList connect = some path ∧
    canonicalizeInHome host.files host.workingDir (utf8 path) home = .ok socket ∧
    (∀ entry ∈ buildProxyForbiddenList host home (runtimeDir host), ¬entry.Hits socket) ∧
    ∀ mount ∈ mounts, mount.access = .readWrite → ¬mount.source <+: socket

theorem checkWritable_ok {path : Text} {socket : Canonical} {mounts : List (Mount Canonical)} :
    checkWritable path socket mounts = .ok () ↔
      ∀ mount ∈ mounts, mount.access = .readWrite → ¬mount.source <+: socket := by
  rw [checkWritable]
  split
  · rename_i mount hfound
    have hreach := List.find?_some hfound
    rw [Bool.and_eq_true, decide_eq_true_iff, isUnderOrEq_iff] at hreach
    refine iff_of_false bail_ne_ok ?_
    intro hnone
    exact hnone mount (List.mem_of_find?_eq_some hfound) hreach.1 hreach.2
  · rename_i hnone
    refine iff_of_true rfl ?_
    intro mount hmem haccess hunder
    have hout := List.find?_eq_none.mp hnone mount hmem
    rw [Bool.and_eq_true, decide_eq_true_iff, isUnderOrEq_iff] at hout
    exact hout ⟨haccess, hunder⟩

theorem validateProxyConnect_ok {host : Host} {connect : Text} {home socket : Canonical}
    {mounts : List (Mount Canonical)} :
    validateProxyConnect host connect home mounts = .ok socket ↔
      Passes host connect home mounts socket ∧
        (home <+: socket ∨ (runtimeDir host).contains socket = true) := by
  rw [validateProxyConnect, Passes]
  cases hpath : stripPrefix "unix:".toList connect with
  | none => simp
  | some path =>
    simp only [bind_eq_ok, withContext_eq_ok, ensure_eq_ok, Bool.or_eq_true, isUnderOrEq_iff]
    constructor
    · rintro ⟨canonical, hcanonical, _, hforbidden, _, hinside, _, hwritable, hpure⟩
      obtain rfl := Except.ok.inj hpure
      exact ⟨⟨path, rfl, hcanonical, checkForbidden_ok.mp hforbidden,
        checkWritable_ok.mp hwritable⟩, hinside⟩
    · rintro ⟨⟨_, hsame, hcanonical, hforbidden, hwritable⟩, hinside⟩
      obtain rfl := Option.some.inj hsame
      exact ⟨socket, hcanonical, (), checkForbidden_ok.mpr hforbidden, (), hinside, (),
        checkWritable_ok.mpr hwritable, rfl⟩

/-! ## The runtime directory -/

/-- The directory that logins get. -/
def loginDir (host : Host) : Bytes :=
  utf8 ("/run/user/".toList ++ decimal host.uid.toNat)

/-- The canonical directory, when it exists. -/
def resolvedDir (host : Host) (path : Bytes) : RuntimeDir :=
  match canonicalize host.files host.workingDir path with
  | .ok resolved => .resolved resolved
  | .error _ => .raw path

/-- In the home directory, or in the directory with this path. -/
def Within (host : Host) (home : Canonical) (path : Bytes) (socket : Canonical) : Prop :=
  home <+: socket ∨ (resolvedDir host path).contains socket = true

/-- `$XDG_RUNTIME_DIR` if it is set to something; the argument is its bytes. -/
def documentedDir (host : Host) : Option Bytes → Bytes
  | none | some [] => loginDir host
  | some path => path

theorem documentedDir_some {value : Bytes} (hvalue : value ≠ []) (host : Host) :
    documentedDir host (some value) = value := by
  cases value with
  | nil => exact absurd rfl hvalue
  | cons => rfl

theorem runtimeDirRaw_unset {host : Host} (hunset : host.env "XDG_RUNTIME_DIR".toList = none) :
    runtimeDirRaw host = loginDir host := by
  rw [runtimeDirRaw, hunset]
  rfl

theorem runtimeDirRaw_set {host : Host} {value : Bytes} {text : Text}
    (hset : host.env "XDG_RUNTIME_DIR".toList = toStr value) (htext : toStr value = some text) :
    runtimeDirRaw host = value := by
  rw [runtimeDirRaw, hset, htext]
  exact (toStr_eq_some_iff value text).mp htext

/-- Every path starts with the empty one. -/
theorem contains_empty (host : Host) (socket : Canonical) :
    (resolvedDir host []).contains socket = true := rfl

/-- What is accepted is in the home or in the directory that the program takes. -/
theorem validateProxyConnect_within {host : Host} {connect : Text} {home socket : Canonical}
    {mounts : List (Mount Canonical)} :
    validateProxyConnect host connect home mounts = .ok socket ↔
      Passes host connect home mounts socket ∧ Within host home (runtimeDirRaw host) socket :=
  validateProxyConnect_ok

/-- Sockets stay within the documented directories exactly when an empty variable, or
one that is not UTF-8, does not let a socket elsewhere pass. -/
theorem validateProxyConnect_within_iff (host : Host) (xdg : Option Bytes)
    (hxdg : host.env "XDG_RUNTIME_DIR".toList = xdg.bind toStr) (connect : Text)
    (home : Canonical) (mounts : List (Mount Canonical)) :
    (∀ socket, validateProxyConnect host connect home mounts = .ok socket →
        Within host home (documentedDir host xdg) socket) ↔
      (xdg = some [] → ∀ socket, Passes host connect home mounts socket →
        Within host home (loginDir host) socket) ∧
      ∀ value, xdg = some value → toStr value = none → ∀ socket,
        Passes host connect home mounts socket → Within host home (loginDir host) socket →
        Within host home value socket := by
  simp only [validateProxyConnect_within]
  cases xdg with
  | none =>
    rw [runtimeDirRaw_unset hxdg]
    exact iff_of_true (fun socket h => h.2) ⟨nofun, nofun⟩
  | some value =>
    rw [Option.bind_some] at hxdg
    by_cases hempty : value = []
    · subst hempty
      rw [runtimeDirRaw_set hxdg rfl]
      constructor
      · intro hclaim
        constructor
        · intro _ socket hpasses
          exact hclaim socket ⟨hpasses, Or.inr (contains_empty host socket)⟩
        · intro value hvalue htext
          obtain rfl := Option.some.inj hvalue
          cases htext
      · intro hcond socket h
        exact hcond.1 rfl socket h.1
    · rw [documentedDir_some hempty]
      have hset : some value ≠ some [] := fun hsame => hempty (Option.some.inj hsame)
      cases htext : toStr value with
      | some text =>
        rw [runtimeDirRaw_set hxdg htext]
        refine iff_of_true (fun socket h => h.2) ⟨fun hsame => absurd hsame hset, ?_⟩
        intro other hother hnone
        obtain rfl := Option.some.inj hother
        cases htext.symm.trans hnone
      | none =>
        rw [runtimeDirRaw_unset (hxdg.trans htext)]
        constructor
        · intro hclaim
          refine ⟨fun hsame => absurd hsame hset, ?_⟩
          intro other hother _ socket hpasses hlogin
          obtain rfl := Option.some.inj hother
          exact hclaim socket ⟨hpasses, hlogin⟩
        · intro hcond socket h
          exact hcond.2 value rfl htext socket h.1 h.2

def runtimeHome : Canonical := [name "run", name "user", name "1000"]

/-- A session with a bus, a key agent and a socket of an application; another socket is
elsewhere. -/
def socketFiles : Files := .ofEntries
  [([name "home"], .dir), (userHome, .dir), (userHome ++ [name ".config"], .dir),
    (userHome ++ [name "work"], .dir),
    ([name "run"], .dir), ([name "run", name "user"], .dir), (runtimeHome, .dir),
    (runtimeHome ++ [name "bus"], .special), (runtimeHome ++ [name "gnupg"], .dir),
    (runtimeHome ++ [name "app.sock"], .special),
    ([name "srv"], .dir), ([name "srv", name "admin.sock"], .special)]
  (by decide +kernel)

def socketHost (xdg : Option Text) : Host :=
  { userHost socketFiles [] with
    env := fun key => if key = "XDG_RUNTIME_DIR".toList then xdg else none }

/-- The variable names the runtime directory. -/
theorem validateProxyConnect_within_session :
    ∃ socket, validateProxyConnect (socketHost (some "/run/user/1000".toList))
        "unix:/run/user/1000/app.sock".toList userHome [] = .ok socket ∧
      Within (socketHost (some "/run/user/1000".toList)) userHome (name "/run/user/1000")
        socket := by
  have hok : validateProxyConnect (socketHost (some "/run/user/1000".toList))
      "unix:/run/user/1000/app.sock".toList userHome [] =
        .ok (runtimeHome ++ [name "app.sock"]) := by
    decide +kernel
  refine ⟨_, hok, ?_⟩
  refine (validateProxyConnect_within_iff _ (some (name "/run/user/1000")) ?_ _ _ _).mpr ?_ _ hok
  · decide +kernel
  · refine ⟨fun hsame => absurd (Option.some.inj hsame) (by decide), ?_⟩
    intro value hvalue htext
    obtain rfl := Option.some.inj hvalue
    exact absurd htext (by decide +kernel)

/-- The empty one lets in the socket that is elsewhere. -/
theorem validateProxyConnect_empty : ∃ (host : Host) (connect : Text) (home socket : Canonical),
    host.env "XDG_RUNTIME_DIR".toList = some [] ∧
      validateProxyConnect host connect home [] = .ok socket ∧
      ¬Within host home (documentedDir host (some [])) socket := by
  refine ⟨socketHost (some []), "unix:/srv/admin.sock".toList, userHome,
    [name "srv", name "admin.sock"], rfl, by decide +kernel, ?_⟩
  rintro (hhome | hdir)
  · exact absurd hhome (by decide +kernel)
  · exact absurd hdir (by decide +kernel)

/-! ## The sockets of a context -/

/-- Where an empty variable, or one that is not UTF-8, makes the program look elsewhere. -/
def Strays (xdg : Option Bytes) : Prop :=
  xdg = some [] ∨ ∃ value, xdg = some value ∧ toStr value = none

/-- Else it takes the documented directory. -/
theorem runtimeDir_documented {host : Host} {xdg : Option Bytes}
    (hxdg : host.env "XDG_RUNTIME_DIR".toList = xdg.bind toStr) (hkept : ¬Strays xdg) :
    runtimeDir host = resolvedDir host (documentedDir host xdg) := by
  suffices hraw : runtimeDirRaw host = documentedDir host xdg by
    rw [← hraw]
    rfl
  cases xdg with
  | none => exact runtimeDirRaw_unset hxdg
  | some value =>
    have hvalue : value ≠ [] := fun hempty => hkept (Or.inl (congrArg some hempty))
    rw [documentedDir_some hvalue]
    cases htext : toStr value with
    | none => exact absurd (Or.inr ⟨value, rfl, htext⟩) hkept
    | some text => exact runtimeDirRaw_set hxdg htext

/-- Not the session bus, and on no line with the directory of an agent or of a control
socket. -/
structure Clear (host : Host) (dir : RuntimeDir) (socket : Canonical) : Prop where
  not_bus : ∀ bus, dir.canonicalizeIn host "bus".toList = .ok bus → socket ≠ bus
  apart : ∀ segment ∈ ["gnupg", "keyring", "rbw", "gcr", "p11-kit", "systemd", "podman"],
    ∀ sensitive, dir.canonicalizeIn host segment.toList = .ok sensitive →
      ¬sensitive <+: socket ∧ ¬socket <+: sensitive

/-- What a proxied socket has to be, where `dir` is the runtime directory. -/
structure Guarded (host : Host) (home : Canonical) (dir : RuntimeDir)
    (mounts : List (Mount Canonical)) (socket : Canonical) : Prop
    extends Clear host dir socket where
  canonical : resolveParts host.files [] (.root :: socket.map .name) = .ok socket
  not_writable : ∀ mount ∈ mounts, mount.access = .readWrite → ¬mount.source <+: socket
  not_agent : ∀ agent, canonicalizeIn host.files home ".ssh/agent".toList = .ok agent →
    ¬agent <+: socket ∧ ¬socket <+: agent

theorem mem_forbid {host : Host} {dir : RuntimeDir} {segment : Text} {blocked : Canonical}
    (entry : Canonical → Text → Forbidden)
    (hblocked : dir.canonicalizeIn host segment = .ok blocked) :
    entry blocked ("$XDG_RUNTIME_DIR/".toList ++ segment) ∈ dir.forbid host segment entry := by
  rw [RuntimeDir.forbid, hblocked]
  exact List.mem_singleton_self _

/-- A subtree that is not hit is on no line with the socket. -/
theorem apart_of_miss {sensitive socket : Canonical} {label : Text}
    (hmiss : ¬(Forbidden.subtree sensitive label).Hits socket) :
    ¬sensitive <+: socket ∧ ¬socket <+: sensitive := by
  rw [Forbidden.Hits, comparable_iff, not_or] at hmiss
  exact hmiss

/-- What passes is guarded in the directory that the program takes. -/
theorem Passes.guarded {host : Host} {connect : Text} {home socket : Canonical}
    {mounts : List (Mount Canonical)} (hpasses : Passes host connect home mounts socket) :
    Guarded host home (runtimeDir host) mounts socket := by
  obtain ⟨path, _, hcanonical, hforbidden, hwritable⟩ := hpasses
  simp only [buildProxyForbiddenList, List.mem_append, List.mem_flatMap] at hforbidden
  refine ⟨⟨?_, ?_⟩, ?_, hwritable, ?_⟩
  · intro bus hbus
    exact hforbidden (.exact bus _) (Or.inr (mem_forbid .exact hbus))
  · intro segment hsegment sensitive hsensitive
    exact apart_of_miss (hforbidden (.subtree sensitive _)
      (Or.inl (Or.inr ⟨segment, hsegment, mem_forbid .subtree hsensitive⟩)))
  · obtain ⟨absolutePath, _, _, hresolve⟩ := canonicalizeInHome_eq_ok.mp hcanonical
    exact resolveParts_self hresolve
  · intro agent hagent
    exact apart_of_miss (hforbidden (.subtree agent _) (Or.inl (Or.inl (mem_under hagent))))

/-- The path of the entry leads to the socket. -/
def ConnectsTo (host : Host) (proxy : ProxyDevice) (socket : Canonical) : Prop :=
  ∃ path, stripPrefix "unix:".toList proxy.connect = some path ∧ LeadsTo host (utf8 path) socket

theorem ConnectsTo.unique {host : Host} {proxy : ProxyDevice} {a b : Canonical}
    (ha : ConnectsTo host proxy a) (hb : ConnectsTo host proxy b) : a = b := by
  obtain ⟨path, hpath, hleads⟩ := ha
  obtain ⟨other, hother, hsame⟩ := hb
  obtain rfl := Option.some.inj (hpath.symm.trans hother)
  exact hleads.unique hsame

/-- The device of an entry: its connect path is the canonical one of the place where the
entry's path leads, and that place is guarded. -/
inductive GuardedDevice (host : Host) (home : Canonical) (dir : RuntimeDir)
    (mounts : List (Mount Canonical)) (proxy : ProxyDevice) : Device → Prop where
  | intro (socket : Canonical) (connect : Text) (uid gid : UInt32) :
    ConnectsTo host proxy socket →
    utf8 connect = utf8 "unix:".toList ++ canonicalBytes socket →
    Guarded host home dir mounts socket →
    GuardedDevice host home dir mounts proxy
      (.proxy connect proxy.listen uid gid host.uid host.gid proxy.mode)

/-- Every proxy device of the context is guarded, and every entry has one. -/
structure ProxiesGuarded (host : Host) (home : Canonical) (dir : RuntimeDir) (cfg : Config)
    (ctx : RunContext) : Prop where
  devices : ∀ connect listen uid gid hostUid hostGid mode,
    Device.proxy connect listen uid gid hostUid hostGid mode ∈ ctx.extraDevices →
    ∃ proxy ∈ cfg.proxy, GuardedDevice host home dir ctx.mounts proxy
      (.proxy connect listen uid gid hostUid hostGid mode)
  entries : ∀ proxy ∈ cfg.proxy, ∃ device ∈ ctx.extraDevices,
    GuardedDevice host home dir ctx.mounts proxy device

theorem proxyDevice_ok {host : Host} {home : Canonical} {mounts : List (Mount Canonical)}
    {uid gid : UInt32} {proxy : ProxyDevice} {device : Device}
    (hdevice : proxyDevice host home mounts uid gid proxy = .ok device) :
    ∃ socket connect, ConnectsTo host proxy socket ∧
      utf8 connect = utf8 "unix:".toList ++ canonicalBytes socket ∧
      Guarded host home (runtimeDir host) mounts socket ∧
      device = .proxy connect proxy.listen uid gid host.uid host.gid proxy.mode := by
  rw [proxyDevice] at hdevice
  obtain ⟨socket, hsocket, hrest⟩ := bind_eq_ok.mp hdevice
  have hpasses := (validateProxyConnect_ok.mp hsocket).1
  have guarded := hpasses.guarded
  obtain ⟨path, hpath, hcanonical, _⟩ := hpasses
  cases htext : toStr (canonicalBytes socket) with
  | none =>
    rw [htext] at hrest
    cases hrest
  | some text =>
    rw [htext] at hrest
    cases hrest
    refine ⟨socket, _, ⟨path, hpath, leadsTo_of_inHome hcanonical⟩, ?_, guarded, rfl⟩
    rw [utf8_append, (toStr_eq_some_iff _ _).mp htext]

theorem proxyDevice_guarded {host : Host} {home : Canonical} {mounts : List (Mount Canonical)}
    {uid gid : UInt32} {proxy : ProxyDevice} {device : Device}
    (hdevice : proxyDevice host home mounts uid gid proxy = .ok device) :
    GuardedDevice host home (runtimeDir host) mounts proxy device := by
  obtain ⟨socket, connect, hleads, htext, guarded, rfl⟩ := proxyDevice_ok hdevice
  exact .intro socket connect uid gid hleads htext guarded

section Context
variable {host : Host} {args : Args} {cfg : Config} {cwd home : Bytes} {homeCanon : Canonical}
  {configDir : Bytes} {allowedDirs allowedFiles : List Bytes} {uuid : Uuid} {ctx : RunContext}

/-- The devices of a context: one for each proxy entry, validated with the mounts of that
very context, then the volumes. -/
theorem resolveContext_devices
    (hok : resolveContext host args cfg cwd home homeCanon configDir allowedDirs allowedFiles uuid =
      .ok ctx) :
    ∃ proxies,
      ctx.extraDevices = proxies ++ cfg.volumes.map (volumeDevice (containerHome args cfg)) ∧
      List.Forall₂ (fun proxy device =>
        proxyDevice host homeCanon ctx.mounts ctx.containerUid ctx.containerGid proxy = .ok device)
        cfg.proxy proxies := by
  rw [resolveContext] at hok
  simp only [bind_eq_ok, withContext_eq_ok, ofIo_eq_ok, mapM_eq_ok] at hok
  obtain ⟨_, _, _, _, _, _, _, _, mounts, _, _, _, _, _, proxies, hproxies, hpure⟩ := hok
  cases hpure
  exact ⟨proxies, rfl, hproxies⟩

theorem resolveContext_proxies
    (hok : resolveContext host args cfg cwd home homeCanon configDir allowedDirs allowedFiles uuid =
      .ok ctx) : ProxiesGuarded host homeCanon (runtimeDir host) cfg ctx := by
  obtain ⟨proxies, hextra, hall⟩ := resolveContext_devices hok
  constructor
  · intro connect listen uid gid hostUid hostGid mode hmem
    rw [hextra] at hmem
    rcases List.mem_append.mp hmem with hproxy | hvolume
    · obtain ⟨proxy, hlisted, hdevice⟩ := forall₂_mem_right hall hproxy
      exact ⟨proxy, hlisted, proxyDevice_guarded hdevice⟩
    · obtain ⟨volume, _, hdevice⟩ := List.mem_map.mp hvolume
      cases hdevice
  · intro proxy hlisted
    obtain ⟨device, hmem, hdevice⟩ := forall₂_mem_left hall hlisted
    refine ⟨device, ?_, proxyDevice_guarded hdevice⟩
    rw [hextra]
    exact List.mem_append_left _ hmem

/-- Of the guard only what is about the runtime directory depends on where that is. -/
theorem GuardedDevice.elsewhere {mounts : List (Mount Canonical)} {dir other : RuntimeDir}
    {proxy : ProxyDevice} {device : Device}
    (hdevice : GuardedDevice host homeCanon dir mounts proxy device)
    (hclear : ∀ socket, ConnectsTo host proxy socket → Clear host other socket) :
    GuardedDevice host homeCanon other mounts proxy device := by
  obtain ⟨socket, connect, uid, gid, hleads, htext, guarded⟩ := hdevice
  exact .intro socket connect uid gid hleads htext
    ⟨hclear socket hleads, guarded.canonical, guarded.not_writable, guarded.not_agent⟩

theorem ProxiesGuarded.elsewhere {dir other : RuntimeDir}
    (guarded : ProxiesGuarded host homeCanon dir cfg ctx)
    (hclear : ∀ proxy ∈ cfg.proxy, ∀ socket, ConnectsTo host proxy socket →
      Clear host other socket) : ProxiesGuarded host homeCanon other cfg ctx := by
  constructor
  · intro connect listen uid gid hostUid hostGid mode hmem
    obtain ⟨proxy, hlisted, hdevice⟩ := guarded.devices _ _ _ _ _ _ _ hmem
    exact ⟨proxy, hlisted, hdevice.elsewhere (hclear proxy hlisted)⟩
  · intro proxy hlisted
    obtain ⟨device, hmem, hdevice⟩ := guarded.entries proxy hlisted
    exact ⟨device, hmem, hdevice.elsewhere (hclear proxy hlisted)⟩

/-- The proxied sockets of a context are guarded exactly when an empty variable, or one
that is not UTF-8, does not leave one at the bus or a sensitive directory. -/
theorem resolveContext_guarded_iff
    (hok : resolveContext host args cfg cwd home homeCanon configDir allowedDirs allowedFiles uuid =
      .ok ctx) (xdg : Option Bytes)
    (hxdg : host.env "XDG_RUNTIME_DIR".toList = xdg.bind toStr) :
    ProxiesGuarded host homeCanon (resolvedDir host (documentedDir host xdg)) cfg ctx ↔
      (Strays xdg → ∀ proxy ∈ cfg.proxy, ∀ socket, ConnectsTo host proxy socket →
        Clear host (resolvedDir host (documentedDir host xdg)) socket) := by
  constructor
  · intro guarded _ proxy hlisted socket hleads
    obtain ⟨_, _, hdevice⟩ := guarded.entries proxy hlisted
    obtain ⟨found, _, _, _, hfound, _, hguarded⟩ := hdevice
    rw [hleads.unique hfound]
    exact hguarded.toClear
  · intro hclear
    have guarded := resolveContext_proxies hok
    by_cases hstrays : Strays xdg
    · exact guarded.elsewhere (hclear hstrays)
    · rwa [runtimeDir_documented hxdg hstrays] at guarded

end Context

/-- `~/work` is mounted read-write, and one socket is proxied. -/
def sessionConfig (connect : Text) : Config :=
  { workConfig [workMount .readWrite] with
    proxy := [⟨connect, "unix:/run/app.sock".toList, "0600".toList⟩] }

/-- `$XDG_RUNTIME_DIR` is set to nothing. -/
def resolveSession (connect : Text) : Anyhow RunContext :=
  resolveContext (socketHost (some [])) noOptions (sessionConfig connect) (name "/home/u/work")
    (name "/home/u") userHome (name "/home/u/.config") [name "~/work"] [] 0

/-- The directory that logins get. -/
def sessionDir : RuntimeDir := resolvedDir (socketHost (some [])) (documentedDir
  (socketHost (some [])) (some []))

theorem session_connectsTo (connect : Text) (socket : Canonical) {path : Text}
    (hpath : stripPrefix "unix:".toList connect = some path)
    (hsocket : canonicalizeInHome socketFiles (socketHost (some [])).workingDir (utf8 path)
      userHome = .ok socket) {proxy : ProxyDevice}
    (hlisted : proxy ∈ (sessionConfig connect).proxy) :
    ConnectsTo (socketHost (some [])) proxy socket := by
  obtain rfl := List.mem_singleton.mp hlisted
  exact ⟨path, hpath, leadsTo_of_inHome hsocket⟩

/-- The socket of the application is guarded all the same. -/
theorem resolveContext_guarded_app : ∃ ctx,
    resolveSession "unix:/run/user/1000/app.sock".toList = .ok ctx ∧
      ProxiesGuarded (socketHost (some [])) userHome sessionDir
        (sessionConfig "unix:/run/user/1000/app.sock".toList) ctx := by
  have hok : (resolveSession "unix:/run/user/1000/app.sock".toList).toOption.map (fun _ => ()) =
      some () := by decide +kernel
  obtain ⟨ctx, hctx, _⟩ := of_toOption_map hok
  refine ⟨ctx, hctx, (resolveContext_guarded_iff hctx (some []) rfl).mpr ?_⟩
  intro _ proxy hlisted socket hleads
  obtain rfl := hleads.unique (session_connectsTo _ (runtimeHome ++ [name "app.sock"]) rfl
    (by decide +kernel) hlisted)
  constructor
  · intro bus hbus
    have hother : sessionDir.canonicalizeIn (socketHost (some [])) "bus".toList =
        .ok (runtimeHome ++ [name "bus"]) := by decide +kernel
    obtain rfl := Except.ok.inj (hbus.symm.trans hother)
    decide
  · intro segment hsegment sensitive hsensitive
    have hall : ∀ segment ∈ ["gnupg", "keyring", "rbw", "gcr", "p11-kit", "systemd", "podman"],
        ∀ sensitive ∈ (sessionDir.canonicalizeIn (socketHost (some []))
          segment.toList).toOption, ¬sensitive <+: runtimeHome ++ [name "app.sock"] ∧
            ¬runtimeHome ++ [name "app.sock"] <+: sensitive := by decide +kernel
    refine hall segment hsegment sensitive ?_
    change (sessionDir.canonicalizeIn (socketHost (some [])) segment.toList).toOption = _
    rw [sessionDir, hsensitive]
    rfl

/-- The session bus is not. -/
theorem resolveContext_bus : ∃ ctx,
    resolveSession "unix:/run/user/1000/bus".toList = .ok ctx ∧
      (socketHost (some [])).env "XDG_RUNTIME_DIR".toList = some [] ∧
      ¬ProxiesGuarded (socketHost (some [])) userHome sessionDir
        (sessionConfig "unix:/run/user/1000/bus".toList) ctx := by
  have hok : (resolveSession "unix:/run/user/1000/bus".toList).toOption.map (fun _ => ()) =
      some () := by decide +kernel
  obtain ⟨ctx, hctx, _⟩ := of_toOption_map hok
  refine ⟨ctx, hctx, rfl, fun guarded => ?_⟩
  obtain ⟨_, _, hdevice⟩ := guarded.entries _ (List.mem_singleton_self _)
  obtain ⟨socket, _, _, _, hleads, _, hguarded⟩ := hdevice
  have hbus : sessionDir.canonicalizeIn (socketHost (some [])) "bus".toList =
      .ok (runtimeHome ++ [name "bus"]) := by decide +kernel
  have hconnects := session_connectsTo "unix:/run/user/1000/bus".toList
    (runtimeHome ++ [name "bus"]) rfl (by decide +kernel) (List.mem_singleton_self _)
  exact hguarded.not_bus _ hbus (hleads.unique hconnects)

end SocketBoundary
