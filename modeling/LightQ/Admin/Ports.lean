/-
# `Admin.Ports` — the ports that endpoints are bound to

A port is a number of 16 bits, but `get_next_port` counts in 32 and nothing on
the way to the socket looks at the number: `bind_interface` is given its decimal
digits, `convert_uri_host_port` reads them back into 32 bits, and `init_server`
hands them to `htons`.  Below 65536 the URI and the socket agree on the port
(`real_portUri`), and from there on they do not (`not_real_portUri`).

The ports of a run are real for as long as its joins find room below 65536:
`join_ports_real_iff`.  A run is that of the one broker of its process, from any
start port.  The invariant is `Numbered` (`Admin.JoinUris`), with the counter not
above 65536 (`Numbered.realPorts`); the first join that finds no room is bound
elsewhere (`not_realPorts_of_no_room`).

The counter moves by what a join needs (`openEndpoint_port`), one for a publisher
and two for a consumer where there is none yet, so that a step that finds room
leaves the counter at most at 65536 (`PortsRemain.room`).  The last port that is
drawn reaches a URI (`openEndpoint_last`), which is why a join without room shows in
the state behind it.
-/
import LightQ.Admin.Endpoints
import LightQ.Utils.HostPort

namespace LightQ

open MachineInt

/-- The port that a `sin_port` of `htons(port)` names. -/
def htons (port : Nat) : Nat := port % 2 ^ 16

/-- `init_server` up to the address: the host, and the port that is bound. -/
def initServer (resourceUri : Bytes) : Option (Bytes × Nat) :=
  (Utils.convertUriHostPort resourceUri).map fun address => (address.1, htons address.2)

namespace BrokerManager

/-- Every endpoint is bound to the port that its URI names, and that its joins are
told; it is a port, no other endpoint has it, and the admin neither. -/
structure RealPorts (bindPort : Nat) (m : BrokerManager) : Prop where
  real : ∀ {k uri}, uriOf m k = some uri → ∃ host p, initServer uri = some (host, p) ∧
    1 ≤ p ∧ p ≤ 65535 ∧ CarriesPort uri p ∧ CarriesPort (localUri uri) p
  apart : ∀ {k k' uri uri'}, uriOf m k = some uri → uriOf m k' = some uri' →
    initServer uri = initServer uri' → k = k'
  admin : ∀ {k uri host p}, uriOf m k = some uri → initServer uri = some (host, p) → p ≠ bindPort

/-- How many ports a join draws. -/
def portsNeeded (req : JoinReq) (b : Broker) : Nat :=
  if req.type = ascii "pub" then if b.pProducer.isSome then 0 else 1
  else if b.pConsumer.isSome then 0 else 2

/-- A join that draws ports finds room for them. -/
def PortsRemain (m : BrokerManager) : AdminStep → Prop
  | .message text _ => ∀ {req b}, m.Joins text req b →
      portsNeeded req b ≠ 0 → m.port.getD 5000 + portsNeeded req b ≤ 65536
  | .work _ _ => True

/-! ## URIs -/

section Uris

variable {p q : Nat}

theorem initServer_portUri (hp : p < 2 ^ 32) :
    initServer (portUri p) = some (ascii "*", htons p) := by
  have hconvert := Utils.convertUriHostPort_decimal (show Utils.colon ∉ ascii "tcp" by decide)
    (show Utils.colon ∉ ascii "*" by decide) (by decide) (by decide) (by decide) hp
  rw [initServer, show portUri p = ascii "tcp" ++ ascii "://" ++ ascii "*" ++ ascii ":" ++ decimal p
    from rfl, hconvert]
  rfl

theorem real_portUri (hlow : 1 ≤ p) (hhigh : p ≤ 65535) :
    ∃ host q, initServer (portUri p) = some (host, q) ∧ 1 ≤ q ∧ q ≤ 65535 ∧
      CarriesPort (portUri p) q ∧ CarriesPort (localUri (portUri p)) q := by
  have hsame : htons p = p := Nat.mod_eq_of_lt (by omega)
  refine ⟨ascii "*", p, ?_, hlow, hhigh, ⟨_, rfl⟩, carriesPort_localUri.mpr rfl⟩
  rw [initServer_portUri (by omega), hsame]

theorem not_real_portUri (hp : 65535 < p) :
    ¬ ∃ host q, initServer (portUri p) = some (host, q) ∧ 1 ≤ q ∧ q ≤ 65535 ∧
      CarriesPort (portUri p) q ∧ CarriesPort (localUri (portUri p)) q := by
  rintro ⟨host, q, -, -, hhigh, hcarries, -⟩
  obtain rfl := (carriesPort_iff _).mp hcarries
  omega

end Uris

/-! ## Drawing ports -/

section Drawing

variable {bindPort drawn a : Nat} {m : BrokerManager} {env : AdminEnv} {req : JoinReq} {b : Broker}

theorem nextUri_port (b : Broker) (a : Nat) : (nextUri b (some (u32 a))).2 = some (u32 (a + 1)) := by
  rw [nextUri, getNextPort_u32]

theorem openEndpoint_port (hm : m.port = some (u32 a)) :
    (m.openEndpoint env req b).2.2 = some (u32 (a + portsNeeded req b)) := by
  by_cases hpub : req.type = ascii "pub"
  · simp only [openEndpoint, portsNeeded, if_pos hpub, openProducer]
    cases b.pProducer with
    | some p => exact hm
    | none =>
        rw [hm]
        exact nextUri_port b a
  · simp only [openEndpoint, portsNeeded, if_neg hpub, openConsumer]
    cases b.pConsumer with
    | some c => exact hm
    | none =>
        have hnext := nextUri_port b (a + 1)
        rw [← nextUri_port b a] at hnext
        rw [hm]
        exact hnext

theorem openEndpoint_last (env : AdminEnv) (hm : m.port = some (u32 a))
    (hb : b.config.bindInterface = ascii "tcp://*") (hneeded : portsNeeded req b ≠ 0) :
    ∃ kind, endpointUri (m.openEndpoint env req b).2.1 kind
      = some (portUri (u32 (a + (portsNeeded req b - 1)))) := by
  by_cases hpub : req.type = ascii "pub"
  · simp only [openEndpoint, portsNeeded, if_pos hpub, openProducer] at hneeded ⊢
    cases hp : b.pProducer with
    | some p =>
        rw [hp] at hneeded
        exact absurd rfl hneeded
    | none =>
        refine ⟨.pub, ?_⟩
        simp only [hm, nextUri_u32 hb]
        exact b.initProducer_uri env _
  · simp only [openEndpoint, portsNeeded, if_neg hpub, openConsumer] at hneeded ⊢
    cases hc : b.pConsumer with
    | some c =>
        rw [hc] at hneeded
        exact absurd rfl hneeded
    | none =>
        refine ⟨.other, ?_⟩
        simp only [hm, nextUri_u32 hb]
        obtain ⟨c, hpc, hconfig⟩ := Option.map_eq_some_iff.mp (b.initConsumer_uris env
          ⟨b.config.id, portUri (u32 (a + 1)), portUri (u32 a), streamOf req.connectionType⟩)
        rw [endpointUri, hpc]
        exact congrArg (fun config => some config.pushBindUri) hconfig

theorem portsNeeded_le (req : JoinReq) (b : Broker) : portsNeeded req b ≤ 2 := by
  unfold portsNeeded
  split
  · split
    · decide
    · decide
  · split
    · decide
    · decide

theorem PortsRemain.room (hm : Numbered bindPort drawn m) (hroom : bindPort + 1 + drawn ≤ 65536)
    {s : AdminStep} (h : m.PortsRemain s) :
    bindPort + 1 + (drawn + portsDrawn m (m.step s)) ≤ 65536 := by
  have hsame : ∀ {m'}, m'.port = m.port → bindPort + 1 + (drawn + portsDrawn m m') ≤ 65536 := by
    intro m' hport
    rw [portsDrawn_eq (n := 0) hm.port (hport.trans hm.port) (by decide)]
    exact hroom
  cases s with
  | work topic storage =>
      refine hsame ?_
      rw [BrokerManager.step]
      split
      · rfl
      · rfl
  | message text env =>
      have hopens := m.processCommand_opens env text
      change Opens m env text (m.step (.message text env)) at hopens
      generalize m.step (.message text env) = m' at hopens ⊢
      cases hopens with
      | same _ => exact hsame rfl
      | created _ _ => exact hsame rfl
      | @joined req b hjoins =>
          have hneeded := portsNeeded_le req b
          rw [portsDrawn_eq hm.port (openEndpoint_port hm.port) (by omega)]
          by_cases hnone : portsNeeded req b = 0
          · omega
          · have hfits := h hjoins hnone
            rw [hm.port, Option.getD_some, u32_of_lt (by omega)] at hfits
            omega

/-- As long as the counter is not above 65536 the ports are real. -/
theorem Numbered.realPorts (h : Numbered bindPort drawn m) (hroom : bindPort + 1 + drawn ≤ 65536) :
    RealPorts bindPort m := by
  obtain ⟨f, hlabels, huris⟩ := h.uris
  have hport : ∀ {k uri}, uriOf m k = some uri → ∃ p, f k = some p ∧ uri = portUri p ∧
      bindPort < p ∧ p ≤ 65535 ∧ initServer uri = some (ascii "*", p) := by
    intro k uri huri
    rw [huris] at huri
    obtain ⟨p, hp, rfl⟩ := Option.map_eq_some_iff.mp huri
    obtain ⟨hlow, hhigh⟩ := hlabels.range hp
    refine ⟨p, hp, rfl, by omega, by omega, ?_⟩
    rw [initServer_portUri (by omega), htons, Nat.mod_eq_of_lt (by omega)]
  constructor
  · intro k uri huri
    obtain ⟨p, -, rfl, hlow, hhigh, -⟩ := hport huri
    exact real_portUri (by omega) hhigh
  · intro k k' uri uri' huri huri' hsame
    obtain ⟨p, hp, -, -, -, hserver⟩ := hport huri
    obtain ⟨p', hp', -, -, -, hserver'⟩ := hport huri'
    rw [hserver, hserver'] at hsame
    obtain rfl := (Prod.mk.inj (Option.some.inj hsame)).2
    exact hlabels.inj hp hp'
  · intro k uri host p huri hserver
    obtain ⟨q, -, -, hlow, -, hq⟩ := hport huri
    obtain rfl := (Prod.mk.inj (Option.some.inj (hserver.symm.trans hq))).2
    omega

/-- A join that finds no room is bound to another port than its URI names. -/
theorem not_realPorts_of_no_room (hm : Numbered bindPort drawn m)
    (hroom : bindPort + 1 + drawn ≤ 65536) {s : AdminStep} (h : ¬ m.PortsRemain s) :
    ¬ RealPorts bindPort (m.step s) := by
  intro hreal
  refine h ?_
  cases s with
  | work topic storage => trivial
  | message text env =>
      intro req b hjoins hneeded
      have hfew := portsNeeded_le req b
      obtain ⟨kind, huri⟩ := openEndpoint_last env hm.port (hm.interface hjoins.grants.1)
        hneeded
      rw [u32_of_lt (by omega)] at huri
      have hstored : uriOf (m.step (.message text env)) (req.topic, kind)
          = some (portUri (bindPort + 1 + drawn + (portsNeeded req b - 1))) := by
        rw [BrokerManager.step, hjoins.manager, uriOf_store, if_pos rfl]
        exact huri
      rw [hm.port, Option.getD_some, u32_of_lt (by omega)]
      by_contra hmore
      exact not_real_portUri (by omega) (hreal.real hstored)

end Drawing

/-! ## Runs -/

/-- In every run from any start port: in all of its states the ports are real, if and
only if all of its joins find room. -/
theorem join_ports_real_iff {adminUserid adminPassword transport bindIp adminUri : Bytes}
    {bindPort : Nat} {initialized : Bool} {m : BrokerManager} (hhigh : bindPort ≤ 65535)
    (hinit : initBroker none adminUserid adminPassword transport bindIp bindPort initialized
      = some (adminUri, m)) (steps : List AdminStep) :
    Runs.Everywhere (fun m s => some (m.step s)) (RealPorts bindPort) m steps ↔
      Always PortsRemain m steps := by
  refine Runs.everywhere_iff_along
    (I := fun m => ∃ drawn, Numbered bindPort drawn m ∧ bindPort + 1 + drawn ≤ 65536)
    (P := fun _ _ => True) ?_ ?_ ?_ ⟨0, numbered_initBroker hinit, by omega⟩
    (Runs.along_of_forall (P := fun _ => True) fun _ _ => trivial)
  · rintro m s m' ⟨drawn, hm, hroom⟩ _ hcond hstep
    obtain rfl := Option.some.inj hstep
    have hleft := hcond.room hm hroom
    exact ⟨_, hm.step s (by omega), hleft⟩
  · rintro m ⟨drawn, hm, hroom⟩
    exact hm.realPorts hroom
  · rintro m s ⟨drawn, hm, hroom⟩ _ hno
    exact ⟨_, rfl, not_realPorts_of_no_room hm hroom hno⟩

/-- A topic, and a publisher. -/
def joinOnce : List AdminStep :=
  [.message (createText (ascii "queue")) openingEnv,
    .message (joinText (ascii "pub") (ascii "zmq")) openingEnv]

theorem join_ports_real_joinOnce :
    Runs.Everywhere (fun m s => some (m.step s)) (RealPorts 5000) (start [] [] (some 5001)) joinOnce ↔
      Always PortsRemain (start [] [] (some 5001)) joinOnce :=
  join_ports_real_iff (by decide)
    (show initBroker none [] [] (ascii "tcp") (ascii "*") 5000 true
      = some (ascii "tcp://*:5000", start [] [] (some 5001)) by rfl) joinOnce

/-- The publisher of a broker started at the last port is bound to no port of its
URI: it says 65536. -/
theorem join_port_not_real :
    ¬ ∀ (bindPort : Nat) (m : BrokerManager) (adminUri : Bytes) (steps : List AdminStep),
      1 ≤ bindPort → bindPort ≤ 65535 →
        initBroker none [] [] (ascii "tcp") (ascii "*") bindPort true = some (adminUri, m) →
          Runs.Everywhere (fun m s => some (m.step s)) (RealPorts bindPort) m steps := by
  intro hall
  have hinit : initBroker none [] [] (ascii "tcp") (ascii "*") 65535 true
      = some (ascii "tcp://*:65535", start [] [] (some 65536)) := by rfl
  have hreal := hall 65535 _ _ joinOnce (by decide) (by decide) hinit joinOnce _ List.prefix_rfl rfl
  have huri : uriOf ((start [] [] (some 65536)).run joinOnce) (ascii "t", .pub)
      = some (portUri 65536) := by decide
  exact not_real_portUri (by decide) (hreal.real huri)

end BrokerManager

end LightQ
