import LinkRelay.Proofs.Client.Configured
import LinkRelay.Proofs.Resolve.Views
set_option autoImplicit false

/-!
# Answers without a request

Talks only add to the requests on a wire. A service's own client that answers without a request
fails with the network or with the program itself, and neither of these is held against a
provider. The one exception is a link to a file that lacks a parameter which the link is built of.
-/

namespace LinkRelay

namespace Http

namespace OnWire

variable {α β : Type}

def Grows (t : OnWire α) : Prop := ∀ wire, wire.requests <+: (t.run wire).2.requests

theorem Grows.bind {t : OnWire α} {f : α → OnWire β} (h : t.Grows) (hf : ∀ a, (f a).Grows) :
    (t >>= f).Grows := by
  intro wire
  have hmore := h wire
  rcases hrun : t.run wire with ⟨_ | a, wire'⟩ <;> rw [hrun] at hmore
  · rw [bind_of_error hrun]
    exact hmore
  · rw [bind_of_ok hrun]
    exact hmore.trans (hf a wire')

theorem grows_pure (a : α) : (pure a : OnWire α).Grows := fun _ => List.prefix_rfl

theorem grows_throw (f : Failure) : (throw f : OnWire α).Grows := fun _ => List.prefix_rfl

theorem grows_lift (r : Except Failure α) : (liftM r : OnWire α).Grows := by
  cases r <;> exact fun _ => List.prefix_rfl

/-- Whether a talk that sends nothing comes only to such results. -/
structure Unsent (P : Except Failure α → Prop) (t : OnWire α) : Prop where
  grows : t.Grows
  result {wire : Wire} (h : (t.run wire).2.requests = wire.requests) : P (t.run wire).1

theorem Unsent.imp {P Q : Except Failure α → Prop} {t : OnWire α} (h : t.Unsent P)
    (hPQ : ∀ r, P r → Q r) : t.Unsent Q :=
  ⟨h.grows, fun hwire => hPQ _ (h.result hwire)⟩

theorem grows_platform {f : Platform → OnWire α} (h : ∀ platform, (f platform).Grows) :
    (platform >>= f).Grows := fun wire => h wire.platform wire

theorem unsent_platform {P : Except Failure α → Prop} {f : Platform → OnWire α}
    (h : ∀ platform, (f platform).Unsent P) : (platform >>= f).Unsent P where
  grows := grows_platform fun platform => (h platform).grows
  result {wire} hwire := (h wire.platform).result hwire

theorem unsent_pure {P : Except Failure α → Prop} {a : α} (h : P (.ok a)) :
    (pure a : OnWire α).Unsent P :=
  ⟨grows_pure a, fun _ => h⟩

def IsNetwork (r : Except Failure α) : Prop := ∃ fault, r = .error (.network fault)

theorem Unsent.bind {t : OnWire α} {f : α → OnWire β} (h : t.Unsent IsNetwork)
    (hf : ∀ a, (f a).Grows) : (t >>= f).Unsent IsNetwork := by
  refine ⟨h.grows.bind hf, fun {wire} hwire => ?_⟩
  have hmore := h.grows wire
  have hresult := @h.result wire
  rcases hrun : t.run wire with ⟨failure | a, wire'⟩ <;> rw [hrun] at hmore hresult
  · rw [bind_of_error hrun] at hwire ⊢
    obtain ⟨fault, hfault⟩ := hresult hwire
    cases hfault
    exact ⟨fault, rfl⟩
  · rw [bind_of_ok hrun] at hwire
    have hsame : wire'.requests = wire.requests :=
      (hmore.eq_of_length_le (hwire ▸ (hf a wire').length_le)).symm
    obtain ⟨fault, hfault⟩ := hresult hsame
    cases hfault

end OnWire

open OnWire

variable {α : Type}

theorem once_unsent (p : Pending) : (once p).Unsent IsNetwork := by
  have hgrown (requests : List Request) (request : Request) :
      requests <+: requests ++ [request] := List.prefix_append _ _
  constructor
  · intro wire
    unfold once
    change wire.requests <+: (if !wire.platform.connects p.url then _ else _ :
      Except Failure Response × Wire).2.requests
    split
    · exact List.prefix_rfl
    · split <;> exact hgrown ..
  · intro wire hwire
    unfold once at hwire ⊢
    change (if !wire.platform.connects p.url then _ else _ :
      Except Failure Response × Wire).2.requests = _ at hwire
    change IsNetwork (if !wire.platform.connects p.url then _ else _ :
      Except Failure Response × Wire).1
    split at hwire
    next hapart =>
      rw [if_pos hapart]
      exact ⟨_, rfl⟩
    next =>
      split at hwire <;> exact absurd hwire (by simp)

theorem follow_unsent (domains : Domain.Rules) (left : Nat) (p : Pending) :
    (follow domains left p).Unsent IsNetwork := by
  induction left generalizing p with
  | zero =>
    unfold follow
    refine (once_unsent p).bind fun r => ?_
    split
    · exact grows_pure r
    · exact grows_throw _
  | succ left ih =>
    unfold follow
    refine (once_unsent p).bind fun r => ?_
    split
    · exact grows_pure r
    · dsimp only
      split
      · exact (ih _).grows
      · exact grows_throw _

theorem pending_failsOnly (domains : Domain.Rules) (d : Draft) :
    FailsOnly (fun f => ∃ fault, f = .network fault) (d.pending domains) := by
  unfold Draft.pending
  split
  · exact failsOnly_error.2 ⟨_, rfl⟩
  · split
    · exact failsOnly_error.2 ⟨_, rfl⟩
    · exact failsOnly_ok

theorem send_unsent (d : Draft) : (send d).Unsent IsNetwork := by
  have hthrow (fault : NetworkFault) :
      (throw (.network fault) : OnWire Response).Unsent IsNetwork :=
    ⟨grows_throw _, fun _ => ⟨fault, rfl⟩⟩
  unfold send
  refine unsent_platform fun platform => ?_
  cases hpending : d.pending platform.domains with
  | error f =>
    obtain ⟨fault, rfl⟩ := pending_failsOnly platform.domains d f hpending
    exact hthrow fault
  | ok p =>
    change (if isHttp p.url then follow platform.domains 10 p else throw _ :
      OnWire Response).Unsent IsNetwork
    split
    · exact follow_unsent platform.domains 10 p
    · exact hthrow _

theorem ask_unsent (endpoint : String) (read : Json → Option α) (d : Draft) :
    (ask endpoint read d).Unsent IsNetwork :=
  unsent_platform fun _ => (send_unsent d).bind fun _ =>
    (grows_lift _).bind fun _ => grows_lift _

end Http

open Http.OnWire

/-- Whether a result is no failure that is retried or that opens a circuit. -/
abbrev IsGentle {α : Type} (r : Except Failure α) : Prop :=
  FailsOnly (fun f => (f.isRateLimited || f.shouldRetry) = false) r

theorem isGentle_of_isNetwork {α : Type} (r : Except Failure α) (h : IsNetwork r) :
    IsGentle r := by
  obtain ⟨fault, rfl⟩ := h
  exact failsOnly_error.2 rfl

namespace Premiumize

variable (s : Premiumize)

theorem entries_unsent (magnet : String) : (s.entries magnet).Unsent IsNetwork :=
  (Http.ask_unsent _ _ _).bind fun _ => grows_lift _

theorem isCached_unsent (key : Key) : (s.isCached key).Unsent IsGentle := by
  cases key with
  | usenet release => exact unsent_pure failsOnly_ok
  | torrent hash magnet =>
    exact ((Http.ask_unsent _ _ _).bind fun _ =>
      (grows_lift _).bind fun _ => grows_pure _).imp isGentle_of_isNetwork

theorem files_unsent (moments : Nat → Time) (key : Key) :
    (s.files moments key).Unsent IsGentle := by
  cases key with
  | usenet release => exact unsent_pure failsOnly_ok
  | torrent hash magnet =>
    exact ((s.entries_unsent magnet).bind fun _ => grows_pure _).imp isGentle_of_isNetwork

theorem link_unsent (file : CachedFile) (key : Key) : (s.link file key).Unsent IsGentle := by
  cases key with
  | usenet release => exact unsent_pure failsOnly_ok
  | torrent hash magnet =>
    exact ((s.entries_unsent magnet).bind fun _ => grows_pure _).imp isGentle_of_isNetwork

end Premiumize

def CachedFile.LacksParameter (file : CachedFile) : Prop :=
  ∃ name ∈ ["hash", "ext", "filename"], file.params.get? name = none

namespace Easynews

variable (s : Easynews)

theorem find_unsent (release : String) : (s.find release).Unsent IsNetwork :=
  (Http.ask_unsent _ _ _).bind fun _ => grows_pure _

theorem isCached_unsent (key : Key) : (s.isCached key).Unsent IsGentle := by
  cases key with
  | torrent hash magnet => exact unsent_pure failsOnly_ok
  | usenet release =>
    exact ((s.find_unsent release).bind fun _ => grows_pure _).imp isGentle_of_isNetwork

theorem files_unsent (now : Time) (key : Key) : (s.files now key).Unsent IsGentle := by
  cases key with
  | torrent hash magnet => exact unsent_pure failsOnly_ok
  | usenet release =>
    refine ((s.find_unsent release).bind fun found => ?_).imp isGentle_of_isNetwork
    split
    · exact (grows_lift _).bind fun _ => grows_pure _
    · exact grows_pure []

theorem parameter_of_some {file : CachedFile} {name : String} {value : String}
    (h : file.params.get? name = some value) : parameter file name = .ok value := by
  rw [parameter, h]

theorem parameter_of_none {file : CachedFile} {name : String} (h : file.params.get? name = none) :
    parameter file name = .error (.parse (.missingParameter file.path name)) := by
  rw [parameter, h]

theorem downloadLink_of_lacks {file : CachedFile} (h : file.LacksParameter) :
    ∃ name, s.downloadLink file = .error (.parse (.missingParameter file.path name)) := by
  unfold downloadLink
  cases hhash : file.params.get? "hash" with
  | none => exact ⟨"hash", by rw [parameter_of_none hhash]; rfl⟩
  | some hash =>
    rw [parameter_of_some hhash]
    cases hextension : file.params.get? "ext" with
    | none => exact ⟨"ext", by rw [parameter_of_none hextension]; rfl⟩
    | some extension =>
      rw [parameter_of_some hextension]
      cases hfilename : file.params.get? "filename" with
      | none => exact ⟨"filename", by rw [parameter_of_none hfilename]; rfl⟩
      | some filename =>
        obtain ⟨name, hname, hnone⟩ := h
        simp only [List.mem_cons, List.not_mem_nil, or_false] at hname
        rcases hname with rfl | rfl | rfl
        · rw [hhash] at hnone
          cases hnone
        · rw [hextension] at hnone
          cases hnone
        · rw [hfilename] at hnone
          cases hnone

theorem downloadLink_of_not_lacks {file : CachedFile} (h : ¬ file.LacksParameter) :
    FailsOnly (fun f => ∃ fault, f = .config fault) (s.downloadLink file) := by
  have hhas (name : String) (hname : name ∈ ["hash", "ext", "filename"]) :
      ∃ value, parameter file name = .ok value := by
    cases hvalue : file.params.get? name with
    | none => exact absurd ⟨name, hname, hvalue⟩ h
    | some value => exact ⟨value, parameter_of_some hvalue⟩
  obtain ⟨hash, hhash⟩ := hhas "hash" (by decide)
  obtain ⟨extension, hextension⟩ := hhas "ext" (by decide)
  obtain ⟨filename, hfilename⟩ := hhas "filename" (by decide)
  unfold downloadLink
  rw [hhash, hextension, hfilename]
  refine .bind_ok (.bind_ok (.bind_ok ?_))
  refine FailsOnly.bind ?_ fun url => ?_
  · cases Url.read s.domains s.baseUrl with
    | ok url => exact failsOnly_ok
    | error fault => exact failsOnly_error.2 ⟨_, rfl⟩
  · split
    · dsimp only
      split
      · exact failsOnly_ok
      · exact failsOnly_error.2 ⟨_, rfl⟩
    · exact failsOnly_error.2 ⟨_, rfl⟩

theorem link_unsent (file : CachedFile) {key : Key}
    (h : ¬ (key.kind = .usenet ∧ file.LacksParameter)) : (s.link file key).Unsent IsGentle := by
  cases key with
  | torrent hash magnet => exact unsent_pure failsOnly_ok
  | usenet release =>
    have hlink := s.downloadLink_of_not_lacks fun hlacks => h ⟨rfl, hlacks⟩
    change (liftM (s.downloadLink file) >>= fun link => pure (some link) :
      Http.OnWire (Option String)).Unsent IsGentle
    cases hresult : s.downloadLink file with
    | ok link => exact ⟨fun _ => List.prefix_rfl, fun _ => failsOnly_ok⟩
    | error f =>
      obtain ⟨fault, rfl⟩ := hlink f hresult
      exact ⟨fun _ => List.prefix_rfl, fun _ => failsOnly_error.2 rfl⟩

end Easynews

namespace Client

/-- Whether a client is asked for a link that it cannot build, for a parameter that the file
    lacks. -/
def CannotLink (c : Client) : Question → Prop
  | .link key file => c.provider = .easynews ∧ key.kind = .usenet ∧ file.LacksParameter
  | .isCached _ | .files _ => False

structure AnswersOwn (c : Client) (q : Question) (wire : Http.Wire)
    (r : Except Failure q.Answer × Client × Http.Wire) : Prop where
  client : r.2.1 = c
  grows : wire.requests <+: r.2.2.requests
  gentle (h : r.2.2.requests = wire.requests) (hcan : ¬ c.CannotLink q) : IsGentle r.1
  missing (h : c.CannotLink q) :
    r.2.2 = wire ∧ ∃ path name, r.1 = .error (.parse (.missingParameter path name))

theorem AnswersOwn.of_unsent {c : Client} (q : Question) {t : Http.OnWire q.Answer}
    (h : t.Unsent IsGentle) (hcan : ¬ c.CannotLink q) (wire : Http.Wire) :
    c.AnswersOwn q wire ((t.run wire).1, c, (t.run wire).2) where
  client := rfl
  grows := h.grows wire
  gentle hwire _ := h.result hwire
  missing hcannot := absurd hcannot hcan

theorem answersOwn {c : Client} (h : c.isWired = true) (moments : Nat → Time) (wire : Http.Wire)
    (q : Question) : c.AnswersOwn q wire (c.answer moments wire q) := by
  cases c with
  | scripted script => cases h
  | premiumize s =>
    have hcan (q : Question) : ¬ (Client.premiumize s).CannotLink q := by
      cases q <;> simp [CannotLink, Client.provider]
    cases q with
    | isCached key => exact .of_unsent (.isCached key) (s.isCached_unsent key) (hcan _) wire
    | files key => exact .of_unsent (.files key) (s.files_unsent moments key) (hcan _) wire
    | link key file => exact .of_unsent (.link key file) (s.link_unsent file key) (hcan _) wire
  | easynews s =>
    cases q with
    | isCached key => exact .of_unsent (.isCached key) (s.isCached_unsent key) id wire
    | files key => exact .of_unsent (.files key) (s.files_unsent (moments 0) key) id wire
    | link key file =>
      by_cases hcannot : (Client.easynews s).CannotLink (.link key file)
      · obtain ⟨-, hkind, hlacks⟩ := hcannot
        cases key with
        | torrent hash magnet => cases hkind
        | usenet release =>
          obtain ⟨name, hname⟩ := s.downloadLink_of_lacks hlacks
          have hanswer : (Client.easynews s).answer moments wire (.link (.usenet release) file) =
              (.error (.parse (.missingParameter file.path name)), .easynews s, wire) := by
            change ((s.link file (.usenet release)).run wire |> fun r => (r.1, _, r.2)) = _
            rw [Easynews.link, hname]
            rfl
          rw [hanswer]
          exact ⟨rfl, List.prefix_rfl, fun _ hcan => absurd ⟨rfl, rfl, hlacks⟩ hcan,
            fun _ => ⟨rfl, _, name, rfl⟩⟩
      · have hlink := s.link_unsent file fun hlacks => hcannot ⟨rfl, hlacks⟩
        exact .of_unsent (.link key file) hlink hcannot wire

end Client
end LinkRelay
