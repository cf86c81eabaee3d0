import LinkRelay.Proofs.Client.Configured
set_option autoImplicit false

/-!
# A world that is set up from a valid configuration

Its clients are sound, each of another provider, and every provider's window has a quota. No step
of a call changes that.
-/

namespace LinkRelay

namespace Limiter

theorem present_configureAll {providers : List ProviderConfig} {l : Limiter} (h : l.Sound)
    (hkinds : (providers.map (·.kind)).Nodup) :
    (providers.foldl (fun l p => l.configure p.kind.name p.limit) l).Sound ∧
      (∀ p ∈ providers, (providers.foldl (fun l p => l.configure p.kind.name p.limit) l).present
        p.kind.name = .fresh p.limit) ∧
      ∀ name, (∀ p ∈ providers, p.kind.name ≠ name) →
        (providers.foldl (fun l p => l.configure p.kind.name p.limit) l).present name =
          l.present name := by
  induction providers generalizing l with
  | nil => exact ⟨h, nofun, fun _ _ => rfl⟩
  | cons p rest ih =>
    obtain ⟨hnew, hkinds⟩ := List.nodup_cons.1 hkinds
    have hput := h.put_start p.kind.name p.limit
    obtain ⟨hsound, hpresent, hothers⟩ := ih hput.sound hkinds
    refine ⟨hsound, fun q hq => ?_, fun name hname => ?_⟩
    · rcases List.mem_cons.1 hq with rfl | hq
      · -- those configured later have other names
        refine (hothers _ fun q' hq' hsame => hnew ?_).trans hput.present_eq
        exact List.mem_map.2 ⟨q', hq', Provider.name_injective hsame⟩
      · exact hpresent q hq
    · have hother : name ≠ p.kind.name := (hname p List.mem_cons_self).symm
      exact (hothers name fun q hq => hname q (List.mem_cons_of_mem _ hq)).trans
        (hput.others hother)

theorem present_ofConfig (standard : Limit) {domains : Domain.Rules} {c : Config}
    (h : c.IsValid domains) {p : ProviderConfig} (hp : p ∈ c.enabled) :
    ((ofConfig standard c).present p.kind.name).limit = p.limit := by
  have hsound := (atRest_ofStandard standard).toSound
  have hpresent := (present_configureAll hsound h.kinds).2.1 p hp
  exact congrArg Window.limit hpresent

end Limiter

namespace World

/-- A world whose clients are sound, no two of one provider, and whose windows have room. -/
structure SetUp (w : World) : Prop where
  sound : w.limiter.Sound
  providers : (w.clients.map (·.provider)).Nodup
  client {c : Client} (h : c ∈ w.clients) : c.IsSound
  quota {c : Client} (h : c ∈ w.clients) :
    0 < (w.limiter.present c.provider.name).limit.quota

theorem setUp_ofConfig {domains : Domain.Rules} {c : Config} (h : c.IsValid domains)
    (standard : Limit) {w : World} (hclients : w.clients = Client.allOfConfig domains c)
    (hlimiter : w.limiter = .ofConfig standard c) :
    w.SetUp := by
  have hmade {c' : Client} (hc' : c' ∈ w.clients) :
      ∃ p ∈ c.enabled, p.enabled = true ∧ Client.ofConfig domains p = c' := by
    rw [hclients] at hc'
    obtain ⟨p, hp, rfl⟩ := List.mem_map.1 hc'
    exact ⟨p, hp, (List.mem_filter.1 hp).2, rfl⟩
  refine ⟨hlimiter ▸ (Limiter.atRest_ofConfig standard c).toSound, ?_, fun hc' => ?_, fun hc' => ?_⟩
  · have hkinds : w.clients.map (·.provider) = c.enabled.map (·.kind) := by
      rw [hclients, Client.allOfConfig, List.map_map]
      exact List.map_congr_left fun p _ => ProviderConfig.provider_ofConfig domains p
    rw [hkinds]
    exact h.kinds
  · obtain ⟨p, hp, henabled, rfl⟩ := hmade hc'
    exact ProviderConfig.isSound_ofConfig (h.checked hp) henabled
  · obtain ⟨p, hp, henabled, rfl⟩ := hmade hc'
    rw [ProviderConfig.provider_ofConfig, hlimiter, Limiter.present_ofConfig standard h hp]
    exact ProviderConfig.check_limit (h.checked hp) henabled

namespace SetUp

variable {w w' : World} {p : Provider} {client : Nat} {kind : Kind} {key : Key}

theorem suits (h : w.SetUp) {c : Client} (hc : w.clients[client]? = some c)
    (hprovider : c.provider = p) : w.Suits Manner.sound p client := by
  have hmem := List.mem_of_getElem? hc
  exact ⟨h.sound, ⟨c, hc, h.client hmem⟩, .inr (hprovider ▸ h.quota hmem)⟩

theorem nodup_clientsFor (h : w.SetUp) (kind : Kind) :
    ((w.clientsFor kind).map (·.2)).Nodup := by
  have hnumbered : (w.clients.zipIdx.map fun e => e.1.provider) = w.clients.map (·.provider) := by
    rw [← List.zipIdx_map_fst 0 w.clients, List.map_map, List.zipIdx_map_fst]
    rfl
  rw [clientsFor, List.map_map]
  exact (hnumbered ▸ h.providers).sublist (List.filter_sublist.map _)

theorem suits_clientsFor (h : w.SetUp) {call : Nat × Provider} (hcall : call ∈ w.clientsFor kind) :
    w.Suits Manner.sound call.2 call.1 := by
  obtain ⟨c, hc, -, hprovider⟩ := mem_clientsFor.1 hcall
  exact h.suits hc hprovider

theorem of_limits (h : w.SetUp) (hclients : w'.clients = w.clients) (hsound : w'.limiter.Sound)
    (hlimits : ∀ name, (w'.limiter.present name).limit = (w.limiter.present name).limit) :
    w'.SetUp where
  sound := hsound
  providers := hclients ▸ h.providers
  client hc := h.client (hclients ▸ hc)
  quota hc := by
    rw [hlimits]
    exact h.quota (hclients ▸ hc)

theorem clients_set (h : w.SetUp) {c c' : Client} (hc : w.clients[client]? = some c)
    (hsame : c.IsSound → c' = c) : w.clients.set client c' = w.clients := by
  obtain ⟨hlt, rfl⟩ := List.getElem?_eq_some_iff.1 hc
  rw [hsame (h.client (List.getElem_mem hlt)), List.set_getElem_self]

theorem place (h : w.SetUp) (client : Nat) (q : Question) : (w.place client q).2.SetUp := by
  refine h.of_limits ?_ (w.place_limiter client q ▸ h.sound) fun name => ?_
  · unfold World.place
    split
    next c hc => exact h.clients_set hc fun hsound => hsound.noted q
    next => rfl
  · rw [w.place_limiter]

theorem receive (h : w.SetUp) (client : Nat) (q : Question) : (w.receive client q).2.SetUp := by
  refine h.of_limits ?_ (w.receive_limiter client q ▸ h.sound) fun name => ?_
  · unfold World.receive
    split
    next c hc => exact h.clients_set hc fun hsound => (hsound.answered _ _ q).2
    next => rfl
  · rw [w.receive_limiter]

theorem put (h : w.SetUp) (name : String) {window : Window}
    (hlimit : window.limit = (w.limiter.present name).limit) :
    { w with limiter := w.limiter.put name window }.SetUp := by
  have hput := h.sound.put name window
  refine h.of_limits rfl hput.sound fun other => ?_
  by_cases hother : other = name
  · subst hother
    rw [hput.present_eq, hlimit]
  · rw [hput.others hother]

theorem touched (h : w.SetUp) (htouched : w.Touched p client w') : w'.SetUp := by
  cases htouched with
  | aside => exact h.of_limits rfl h.sound fun _ => rfl
  | place q => exact h.place client q
  | receive q => exact h.receive client q
  | put window hlimit => exact h.put p.name hlimit

theorem alike (h : w.SetUp) (hclients : w'.clients = w.clients)
    (hlimiter : w'.limiter = w.limiter) : w'.SetUp :=
  h.of_limits hclients (hlimiter ▸ h.sound) fun _ => by rw [hlimiter]

end SetUp

theorem Suits.alike {M : Manner} {w w' : World} {p : Provider} {client : Nat}
    (h : w.Suits M p client) (hclients : w'.clients = w.clients)
    (hlimiter : w'.limiter = w.limiter) : w'.Suits M p client :=
  ⟨hlimiter ▸ h.sound, hclients ▸ h.client, hlimiter ▸ h.grants⟩

theorem Suits.quota {w : World} {p : Provider} {client : Nat} (h : w.Suits Manner.sound p client) :
    0 < (w.limiter.present p.name).limit.quota :=
  h.grants.resolve_left nofun

end World

end LinkRelay
