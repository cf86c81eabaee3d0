import LinkRelay.Config.Validation
import LinkRelay.Proofs.Client.OwnFiles
import LinkRelay.Proofs.Url.Trimming
set_option autoImplicit false

/-!
# Clients of a valid configuration

None of a service's answers is a failure of the program itself: what comes over the wire is a
provider's fault or the network's, and a link can be built on every base address that a valid
configuration holds. Its limiter refuses nobody, since no quota is zero.
-/

namespace LinkRelay

/-- Whether a result is no failure but one of some. -/
def FailsOnly {α : Type} (Q : Failure → Prop) (r : Except Failure α) : Prop :=
  ∀ f, r = .error f → Q f

section FailsOnly

variable {α β : Type} {Q : Failure → Prop}

@[simp]
theorem failsOnly_ok {a : α} : FailsOnly Q (.ok a) := nofun

@[simp]
theorem failsOnly_error {f : Failure} : FailsOnly Q (.error f : Except Failure α) ↔ Q f :=
  ⟨fun h => h f rfl, fun h _ hf => Except.error.inj hf ▸ h⟩

theorem FailsOnly.bind {x : Except Failure α} {f : α → Except Failure β} (h : FailsOnly Q x)
    (hf : ∀ a, FailsOnly Q (f a)) : FailsOnly Q (x >>= f) := by
  cases x with
  | ok a => exact hf a
  | error failure => exact failsOnly_error.2 (failsOnly_error.1 h)

theorem FailsOnly.bind_ok {a : α} {f : α → Except Failure β} (h : FailsOnly Q (f a)) :
    FailsOnly Q (Except.ok a >>= f) :=
  h

end FailsOnly

/-- Whether a result is no failure of the program itself. -/
abbrev IsHarmless {α : Type} (r : Except Failure α) : Prop :=
  FailsOnly (fun f => f.isFatal = false) r

namespace Http

abbrev OnWire.Harmless {α : Type} (t : OnWire α) : Prop := t.Gives IsHarmless

namespace OnWire.Harmless

variable {α β : Type}

theorem bind {t : OnWire α} {f : α → OnWire β} (h : t.Harmless) (hf : ∀ a, (f a).Harmless) :
    (t >>= f).Harmless :=
  Gives.bind h (fun a _ => hf a) fun _ hfailure => failsOnly_error.2 (failsOnly_error.1 hfailure)

theorem pure (a : α) : (Pure.pure a : OnWire α).Harmless := fun _ => failsOnly_ok

theorem platform : OnWire.platform.Harmless := fun _ => failsOnly_ok

theorem throw {f : Failure} (h : f.isFatal = false) : (throw f : OnWire α).Harmless :=
  fun _ => failsOnly_error.2 h

theorem lift {r : Except Failure α} (h : IsHarmless r) : (liftM r : OnWire α).Harmless :=
  gives_lift h

end OnWire.Harmless

open OnWire (Harmless)

variable {α : Type}

theorem isFatal_ofStatus (code : Nat) (endpoint body : String) :
    (Failure.ofStatus code endpoint body).isFatal = false := by
  unfold Failure.ofStatus
  split
  · rfl
  · split <;> rfl

theorem once_isHarmless (p : Pending) : (once p).Harmless := by
  have hnone : IsHarmless (.error (.network (.noAnswer p.url.toText)) : Except Failure Response) :=
    failsOnly_error.2 rfl
  intro wire
  unfold once
  change IsHarmless (if !wire.platform.connects p.url then _ else _ :
    Except Failure Response × Wire).1
  split
  · exact hnone
  · split
    · exact failsOnly_ok
    · exact hnone
    · exact hnone

theorem follow_isHarmless (domains : Domain.Rules) (left : Nat) (p : Pending) :
    (follow domains left p).Harmless := by
  induction left generalizing p with
  | zero =>
    unfold follow
    refine (once_isHarmless p).bind fun r => ?_
    split
    · exact .pure r
    · exact .throw rfl
  | succ left ih =>
    unfold follow
    refine (once_isHarmless p).bind fun r => ?_
    split
    · exact .pure r
    · dsimp only
      split
      · exact ih _
      · exact .throw rfl

theorem pending_isHarmless (domains : Domain.Rules) (d : Draft) :
    IsHarmless (d.pending domains) := by
  unfold Draft.pending
  split
  · exact failsOnly_error.2 rfl
  · split
    · exact failsOnly_error.2 rfl
    · exact failsOnly_ok

theorem send_isHarmless (d : Draft) : (send d).Harmless := by
  refine Harmless.platform.bind fun platform => ?_
  refine (Harmless.lift (pending_isHarmless platform.domains d)).bind fun p => ?_
  split
  · exact follow_isHarmless platform.domains 10 p
  · exact .throw rfl

theorem checkStatus_isHarmless (decoders : Decoders) (endpoint : String) (r : Response) :
    IsHarmless (checkStatus decoders endpoint r) := by
  unfold checkStatus
  split
  · exact failsOnly_ok
  · exact failsOnly_error.2 (isFatal_ofStatus ..)

theorem jsonBody_isHarmless (read : Json → Option α) (r : Response) :
    IsHarmless (jsonBody read r) := by
  unfold jsonBody
  split
  · exact failsOnly_ok
  · exact failsOnly_error.2 rfl

theorem ask_isHarmless (endpoint : String) (read : Json → Option α) (d : Draft) :
    (ask endpoint read d).Harmless :=
  Harmless.platform.bind fun platform => (send_isHarmless d).bind fun r =>
    (Harmless.lift (checkStatus_isHarmless platform.decoders endpoint r)).bind fun r =>
      .lift (jsonBody_isHarmless read r)

end Http

open Http.OnWire (Harmless)

namespace Premiumize

variable (s : Premiumize)

theorem accept_isHarmless {α : Type} (report : Report α) (endpoint : String) :
    IsHarmless (report.accept endpoint) := by
  unfold Report.accept
  split
  · exact failsOnly_ok
  · exact failsOnly_error.2 rfl

theorem entries_isHarmless (magnet : String) : (s.entries magnet).Harmless :=
  (Http.ask_isHarmless _ _ _).bind fun report => .lift (accept_isHarmless report _)

theorem isCached_isHarmless (key : Key) : (s.isCached key).Harmless := by
  cases key with
  | usenet release => exact .pure false
  | torrent hash magnet =>
    exact (Http.ask_isHarmless _ _ _).bind fun report =>
      (Harmless.lift (accept_isHarmless report _)).bind fun found => .pure _

theorem files_isHarmless (moments : Nat → Time) (key : Key) : (s.files moments key).Harmless := by
  cases key with
  | usenet release => exact .pure []
  | torrent hash magnet => exact (s.entries_isHarmless magnet).bind fun entries => .pure _

theorem link_isHarmless (file : CachedFile) (key : Key) : (s.link file key).Harmless := by
  cases key with
  | usenet release => exact .pure none
  | torrent hash magnet => exact (s.entries_isHarmless magnet).bind fun entries => .pure _

end Premiumize

namespace Easynews

variable {s : Easynews}

theorem find_isHarmless (s : Easynews) (release : String) : (s.find release).Harmless :=
  (Http.ask_isHarmless _ _ _).bind fun _ => .pure _

def HasBase (s : Easynews) : Prop := 
  ∃ u, Url.read s.domains s.baseUrl = .ok u ∧ u.IsWeb

def IsMissing (file : CachedFile) (f : Failure) : Prop :=
  ∃ name, f = .parse (.missingParameter file.path name)

theorem parameter_failsOnly (file : CachedFile) (name : String) :
    FailsOnly (IsMissing file) (parameter file name) := by
  unfold parameter
  split
  · exact failsOnly_ok
  · exact failsOnly_error.2 ⟨name, rfl⟩

theorem downloadLink_failsOnly (h : s.HasBase) (file : CachedFile) :
    FailsOnly (IsMissing file) (s.downloadLink file) := by
  obtain ⟨u, hu, hweb⟩ := h
  obtain ⟨names, hpath⟩ := hweb.hierarchy
  have hscheme : (u.scheme == "file") = false := by
    rcases hweb.scheme with h | h <;> rw [h] <;> rfl
  have hlogin : ∃ u', u.withLogin? s.username s.password = some u' ∧ u'.path = u.path := by
    rw [Url.withLogin?, hweb.host, hscheme]
    exact ⟨_, rfl, rfl⟩
  obtain ⟨u', hu', hpath'⟩ := hlogin
  have hsegments (names' : List String) : ∃ u'', u'.withSegments? names' = some u'' := by
    rw [Url.withSegments?, hpath', hpath]
    exact ⟨_, rfl⟩
  refine (parameter_failsOnly file "hash").bind fun hash => ?_
  refine (parameter_failsOnly file "ext").bind fun extension => ?_
  refine (parameter_failsOnly file "filename").bind fun filename => ?_
  rw [hu]
  refine FailsOnly.bind_ok (a := u) ?_
  rw [hu']
  dsimp only
  split
  · exact failsOnly_ok
  next hnone =>
    obtain ⟨u'', hu''⟩ := hsegments (linkSegments hash extension filename
      (do return (← file.params.get? "farm", ← file.params.get? "port")))
    exact absurd hu'' (hnone u'')

theorem downloadLink_isHarmless (h : s.HasBase) (file : CachedFile) :
    IsHarmless (s.downloadLink file) := by
  intro f hf
  obtain ⟨name, rfl⟩ := downloadLink_failsOnly h file f hf
  rfl

theorem fileOf_isHarmless (h : s.HasBase) (now : Time) (post : Post) (found : Found) :
    IsHarmless (s.fileOf now post found) :=
  (downloadLink_isHarmless h _).bind fun _ => failsOnly_ok

theorem isCached_isHarmless (s : Easynews) (key : Key) : (s.isCached key).Harmless := by
  cases key with
  | torrent hash magnet => exact .pure false
  | usenet release => exact (s.find_isHarmless release).bind fun _ => .pure _

theorem files_isHarmless (h : s.HasBase) (now : Time) (key : Key) :
    (s.files now key).Harmless := by
  cases key with
  | torrent hash magnet => exact .pure []
  | usenet release =>
    refine (s.find_isHarmless release).bind fun found => ?_
    split
    · exact (Harmless.lift (fileOf_isHarmless h now _ found)).bind fun _ => .pure _
    · exact .pure []

theorem link_isHarmless (h : s.HasBase) (file : CachedFile) (key : Key) :
    (s.link file key).Harmless := by
  cases key with
  | torrent hash magnet => exact .pure none
  | usenet release => exact (Harmless.lift (downloadLink_isHarmless h file)).bind fun _ => .pure _

end Easynews

namespace Client

/-- Whether a client is a service's own, with a base address that links can be built on. -/
def IsSound : Client → Prop
  | .premiumize _ => True
  | .easynews s => s.HasBase
  | .scripted _ => False

theorem IsSound.noted {c : Client} (h : c.IsSound) (q : Question) : c.noted q = c := by
  cases c with
  | premiumize s | easynews s => rfl
  | scripted s => cases h

theorem IsSound.answered {c : Client} (h : c.IsSound) (moments : Nat → Time) (wire : Http.Wire)
    (q : Question) :
    IsHarmless (c.answer moments wire q).1 ∧ (c.answer moments wire q).2.1 = c := by
  cases c with
  | premiumize s =>
    cases q with
    | isCached key => exact ⟨s.isCached_isHarmless key wire, rfl⟩
    | files key => exact ⟨s.files_isHarmless moments key wire, rfl⟩
    | link key file => exact ⟨s.link_isHarmless file key wire, rfl⟩
  | easynews s =>
    cases q with
    | isCached key => exact ⟨s.isCached_isHarmless key wire, rfl⟩
    | files key => exact ⟨Easynews.files_isHarmless h (moments 0) key wire, rfl⟩
    | link key file => exact ⟨Easynews.link_isHarmless h file key wire, rfl⟩
  | scripted s => cases h

end Client

def Manner.sound : Manner where
  client := Client.IsSound
  turn r := ∃ waited, r = .ok waited
  answer _ a := IsHarmless a
  admits waited := ⟨waited, rfl⟩
  noted h q := (h.noted q).symm ▸ h
  answered h moments wire q :=
    ⟨(h.answered moments wire q).1, (h.answered moments wire q).2.symm ▸ h⟩

theorem Manner.sound_allows (p : Provider) : Manner.sound.Allows p IsHarmless where
  turn h := by
    obtain ⟨waited, hwaited⟩ := h
    cases hwaited
  error h := failsOnly_error.2 (failsOnly_error.1 h)
  listed _ := failsOnly_ok
  linked _ _ _ := failsOnly_ok
  notCached := failsOnly_ok

def Succeeds (r : CallResult) : Prop := ∃ outcome, r = .ok outcome

theorem RetryPolicy.answer_succeeds {r : CallResult} (h : IsHarmless r) : Succeeds (answer r) := by
  cases r with
  | ok outcome => exact ⟨outcome, rfl⟩
  | error f => exact ⟨_, answer_of_not_fatal (failsOnly_error.1 h)⟩

theorem PolicyCall.within_sound (policy : RetryPolicy) (c : PolicyCall) (client : Nat) :
    (policy.call c.provider (c.attempt client)).Within Manner.sound c.provider client Succeeds :=
  RetryPolicy.within_call (c.within_attempt (Manner.sound_allows c.provider) client)
    (fun _ => RetryPolicy.answer_succeeds) ⟨_, rfl⟩

theorem ok_of_bind {ε α β : Type} {x : Except ε α} {f : α → Except ε β} {b : β}
    (h : x >>= f = .ok b) : ∃ a, x = .ok a ∧ f a = .ok b := by
  cases x with
  | ok a => exact ⟨a, rfl, h⟩
  | error e => cases h

namespace ProviderConfig

variable {domains : Domain.Rules} {p : ProviderConfig}

theorem check_limit (h : p.check domains = .ok ()) (henabled : p.enabled = true) : 0 < p.limit.quota := by
  rw [check, if_pos henabled] at h
  by_cases hzero : p.limit.windowMs = 0 ∨ p.limit.quota = 0
  · rw [checkLimit, if_pos hzero] at h
    cases h
  · exact Nat.pos_of_ne_zero fun hquota => hzero (.inr hquota)

theorem publicUrl_isWeb (domains : Domain.Rules) (kind : Provider) :
    ∃ u, Url.read domains (publicUrl kind) = .ok u ∧ (u.scheme = "http" ∨ u.scheme = "https") := by
  have hauthority : ∃ after rest,
      Url.takeScheme (Url.essence (publicUrl kind)) = some ("https", after) ∧
        Url.IsAuthority domains "https" (after.dropWhile (Url.isSlash true)) rest := by
    cases kind with
    | premiumize =>
      refine ⟨"//www.premiumize.me/api".toList, "www.premiumize.me/api".toList, by decide +kernel,
        ⟨"", "", by decide +kernel⟩, by decide +kernel, ?_,
        (none, "/api".toList), rfl⟩
      exact Host.readSpecial_of_plain domains "www.premiumize.me" (by decide +kernel)
        (by decide +kernel) (by decide +kernel) (by decide +kernel) (by decide +kernel)
    | easynews =>
      refine ⟨"//members.easynews.com".toList, "members.easynews.com".toList, by decide +kernel,
        ⟨"", "", by decide +kernel⟩, by decide +kernel, ?_,
        (none, []), rfl⟩
      exact Host.readSpecial_of_plain domains "members.easynews.com" (by decide +kernel)
        (by decide +kernel) (by decide +kernel) (by decide +kernel) (by decide +kernel)
  obtain ⟨after, rest, hscheme, hauthority⟩ := hauthority
  obtain ⟨u, hu, hsame⟩ := Url.read_of_isAuthority hscheme (.inr rfl) hauthority
  exact ⟨u, hu, .inr hsame⟩

theorem baseUrl_isWeb (h : p.check domains = .ok ()) (henabled : p.enabled = true) :
    ∃ u, Url.read domains p.baseUrlOrPublic = .ok u ∧ (u.scheme = "http" ∨ u.scheme = "https") := by
  rw [check, if_pos henabled] at h
  obtain ⟨_, -, h⟩ := ok_of_bind h
  obtain ⟨_, hbase, -⟩ := ok_of_bind h
  unfold checkBaseUrl at hbase
  unfold baseUrlOrPublic
  split at hbase
  next hnone =>
    rw [hnone]
    exact publicUrl_isWeb domains p.kind
  next text htext =>
    rw [htext]
    split at hbase
    next => cases hbase
    next u hu =>
      refine ⟨u, hu, ?_⟩
      split at hbase
      next => cases hbase
      next hforeign =>
        have hscheme := (Bool.or_eq_false_iff.1 (Bool.eq_false_iff.2 hforeign)).2
        rw [Bool.not_eq_false'] at hscheme
        exact (Bool.or_eq_true _ _ ▸ hscheme).imp eq_of_beq eq_of_beq

theorem isSound_ofConfig (h : p.check domains = .ok ()) (henabled : p.enabled = true) :
    (Client.ofConfig domains p).IsSound := by
  obtain ⟨u, hu, hweb⟩ := baseUrl_isWeb h henabled
  unfold Client.ofConfig
  cases p.kind with
  | premiumize => exact trivial
  | easynews => exact Url.read_trimSlashes hu hweb

theorem provider_ofConfig (domains : Domain.Rules) (p : ProviderConfig) :
    (Client.ofConfig domains p).provider = p.kind := by
  unfold Client.ofConfig
  cases p.kind <;> rfl

end ProviderConfig

namespace Config

variable {domains : Domain.Rules} {c : Config}

theorem checkProviders_ok {seen : List Provider} {providers : List ProviderConfig}
    (h : checkProviders domains seen providers = .ok ()) :
    (∀ p ∈ providers, p.check domains = .ok ()) ∧ (providers.map (·.kind)).Nodup ∧
      ∀ p ∈ providers, p.kind ∉ seen := by
  induction providers generalizing seen with
  | nil => exact ⟨nofun, List.nodup_nil, nofun⟩
  | cons p rest ih =>
    rw [checkProviders] at h
    split at h
    next => cases h
    next hnew =>
      obtain ⟨_, hcheck, hrest⟩ := ok_of_bind h
      obtain ⟨hchecks, hnodup, hfresh⟩ := ih hrest
      have hother : ∀ q ∈ rest, q.kind ≠ p.kind := fun q hq hsame =>
        hfresh q hq (hsame ▸ List.mem_cons_self)
      refine ⟨?_, ?_, ?_⟩
      · intro q hq
        rcases List.mem_cons.1 hq with rfl | hq
        · exact hcheck
        · exact hchecks q hq
      · refine List.nodup_cons.2 ⟨fun hmem => ?_, hnodup⟩
        obtain ⟨q, hq, hsame⟩ := List.mem_map.1 hmem
        exact hother q hq hsame
      · intro q hq
        rcases List.mem_cons.1 hq with rfl | hq
        · simpa using hnew
        · exact fun hseen => hfresh q hq (List.mem_cons_of_mem _ hseen)

/-- A configuration that is in force: what is switched on is checked, and of no kind twice. -/
structure IsValid (domains : Domain.Rules) (c : Config) : Prop where
  checked {p : ProviderConfig} (h : p ∈ c.enabled) : p.check domains = .ok ()
  kinds : (c.enabled.map (·.kind)).Nodup

theorem isValid_of_validate (h : c.validate domains = .ok ()) : c.IsValid domains := by
  have hcheck : c.check domains = .ok () := by
    rw [validate] at h
    cases hcheck : c.check domains with
    | ok _ => rfl
    | error fault =>
      rw [hcheck] at h
      cases h
  rw [check] at hcheck
  split at hcheck
  · cases hcheck
  obtain ⟨_, hproviders, -⟩ := ok_of_bind hcheck
  obtain ⟨hchecks, hnodup, -⟩ := checkProviders_ok hproviders
  refine ⟨fun hp => hchecks _ (List.mem_filter.1 hp).1, ?_⟩
  exact hnodup.sublist (List.filter_sublist.map _)

end Config

end LinkRelay
