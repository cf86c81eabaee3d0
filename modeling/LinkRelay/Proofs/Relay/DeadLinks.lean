import LinkRelay.Proofs.Relay.Deletion
import LinkRelay.Proofs.Relay.Refreshing
import LinkRelay.Proofs.Stream.Delivery
set_option autoImplicit false

/-!
# Dead links and their refreshes

A link is found dead by a probe, by the first request of a stream, or by a read whose response
breaks off. Each time it is counted, and one refresh follows, which is counted by how it ends.
`World.Tallied` tells what an operation adds to the two counts; only a refresh that is aborted, by
a fatal failure or by one of the store, stays without its count.
-/

namespace LinkRelay

def Failure.aborts (f : Failure) : Bool := f.isFatal || f == .parse .timeBefore1970

theorem Failure.aborts_of_isFatal {f : Failure} (h : f.isFatal = true) : f.aborts = true := by
  rw [aborts, h, Bool.true_or]

def Series.isOfLinks : Series → Bool
  | .deadLink _ | .linkRefreshed .. => true
  | _ => false

theorem Series.ne_of_links {s t : Series} (hs : s.isOfLinks = true) (ht : t.isOfLinks = false) :
    s ≠ t := by
  rintro rfl
  exact absurd (ht.symm.trans hs) Bool.false_ne_true

namespace World

def deadLinks (w : World) (p : Provider) : Nat := w.metrics.count (.deadLink p)

def refreshes (w : World) (p : Provider) : Nat :=
  w.metrics.count (.linkRefreshed p true) + w.metrics.count (.linkRefreshed p false)

/-- Between two operations, where since an earlier world the links of some providers were found
    dead, and those of some were refreshed. -/
structure Tallied (w : World) (found ended : List Provider) (w' : World) : Prop where
  rests : w'.AtRest
  deadLinks (p : Provider) : w'.deadLinks p = w.deadLinks p + found.count p
  refreshes (p : Provider) : w'.refreshes p = w.refreshes p + ended.count p

variable {w w' w'' : World} {found ended : List Provider}

theorem Tallied.of_counts (h : w'.AtRest)
    (hcounts : ∀ s : Series, s.isOfLinks = true → w'.metrics.count s = w.metrics.count s) :
    w.Tallied [] [] w' where
  rests := h
  deadLinks p := hcounts _ rfl
  refreshes p := by
    rw [World.refreshes, hcounts _ rfl, hcounts _ rfl]
    rfl

theorem Tallied.of_metrics (h : w'.AtRest) (hmetrics : w'.metrics = w.metrics) :
    w.Tallied [] [] w' :=
  .of_counts h fun _ _ => by rw [hmetrics]

theorem Tallied.outside (h : w.AtRest) (clients : List Client) (wire : Http.Wire) :
    w.Tallied [] [] { w with clients, wire } :=
  .of_metrics ⟨h.limiter, h.patient⟩ rfl

theorem Tallied.trans {found' ended' : List Provider} (h : w.Tallied found ended w')
    (h' : w'.Tallied found' ended' w'') : w.Tallied (found ++ found') (ended ++ ended') w'' where
  rests := h'.rests
  deadLinks p := by rw [h'.deadLinks, h.deadLinks, List.count_append, Nat.add_assoc]
  refreshes p := by rw [h'.refreshes, h.refreshes, List.count_append, Nat.add_assoc]

theorem tallied_deadLink (h : w.AtRest) (p : Provider) :
    w.Tallied [p] [] (w.count (.deadLink p)) where
  rests := h.atCount _
  deadLinks q := by
    have hsame : Series.deadLink q = .deadLink p ↔ p = q := by grind
    simp [deadLinks, count, Metrics.count_add, List.count_singleton, hsame]
  refreshes q := by simp [refreshes, count, Metrics.count_add]

theorem tallied_linkRefreshed (h : w.AtRest) (p : Provider) (success : Bool) :
    w.Tallied [] [p] (w.count (.linkRefreshed p success)) where
  rests := h.atCount _
  deadLinks q := by simp [deadLinks, count, Metrics.count_add]
  refreshes q := by
    have hsame (other : Bool) : Series.linkRefreshed q other = .linkRefreshed p success ↔
        p = q ∧ other = success := by grind
    cases success <;>
      simp [refreshes, count, Metrics.count_add, List.count_singleton, hsame] <;> omega

inductive Ends {α : Type} (w : World) (found ended : List Provider) : Except Halt α × World → Prop
  | answered {a : α} {w' : World} (h : w.Tallied found ended w') : Ends w found ended (.ok a, w')
  | failed {f : Failure} {w' : World} (h : w.Tallied found ended w') :
    Ends w found ended (.error (.failure f), w')
  | aborted {f : Failure} {w' : World} (h : f.aborts = true) :
    Ends w found ended (.error (.failure f), w')

theorem Ends.after {α : Type} {v : World} {found' ended' : List Provider}
    {r : Except Halt α × World} (h : w.Tallied found ended v) (hr : v.Ends found' ended' r) :
    w.Ends (found ++ found') (ended ++ ended') r := by
  cases hr with
  | answered hr => exact .answered (h.trans hr)
  | failed hr => exact .failed (h.trans hr)
  | aborted habort => exact .aborted habort

end World

namespace Session

variable {α β : Type} {w : World} {s : Session α} {f : α → Session β} {found ended : List Provider}

def Tallies (w : World) (found ended : List Provider) (s : Session α) : Prop :=
  w.Ends found ended (s w)

/-- A session that comes to an answer and adds nothing to the counts of links, or is aborted. -/
inductive Proceeds (w : World) (s : Session α) : Prop
  | answered {a : α} {v : World} (h : s w = (.ok a, v)) (htallied : w.Tallied [] [] v)
  | aborted {f : Failure} {v : World} (h : s w = (.error (.failure f), v))
    (habort : f.aborts = true)

theorem Proceeds.bind (h : Proceeds w s) (hf : ∀ a v, v.AtRest → Tallies v found ended (f a)) :
    Tallies w found ended (s >>= f) := by
  rw [Tallies]
  cases h with
  | answered h htallied =>
    rw [bind_of_ok h]
    exact (hf _ _ htallied.rests).after htallied
  | aborted h habort =>
    rw [bind_of_error h]
    exact .aborted habort

theorem Proceeds.tallies (h : Proceeds w s) : Tallies w [] [] s := by
  rw [Tallies]
  cases h with
  | answered h htallied => exact h ▸ .answered htallied
  | aborted h habort => exact h ▸ .aborted habort

theorem Tallies.bind_of_error (h : Tallies w found ended s) {halt : Halt} {v : World}
    (hs : s w = (.error halt, v)) : Tallies w found ended (s >>= f) := by
  rw [Tallies, hs] at h
  rw [Tallies, Session.bind_of_error hs]
  cases h with
  | failed h => exact .failed h
  | aborted habort => exact .aborted habort

theorem Tallies.tallied (h : Tallies w found ended s) {a : α} {v : World} (hs : s w = (.ok a, v)) :
    w.Tallied found ended v := by
  rw [Tallies, hs] at h
  cases h with
  | answered h => exact h

theorem Tallies.bind_of_ok (h : Tallies w [] [] s) {a : α} {v : World} (hs : s w = (.ok a, v))
    (hf : Tallies v found ended (f a)) : Tallies w found ended (s >>= f) := by
  rw [Tallies, Session.bind_of_ok hs]
  exact World.Ends.after (h.tallied hs) hf

theorem Tallies.bind (h : Tallies w found ended s) (hf : ∀ a v, v.AtRest → Tallies v [] [] (f a)) :
    Tallies w found ended (s >>= f) := by
  rcases hs : s w with ⟨halt | a, v⟩
  · exact h.bind_of_error hs
  · have hdone := h.tallied hs
    have hrest := World.Ends.after hdone (hf a v hdone.rests)
    rw [List.append_nil, List.append_nil] at hrest
    rw [Tallies, Session.bind_of_ok hs]
    exact hrest

namespace Tallies

theorem pure (h : w.AtRest) (a : α) : Tallies w [] [] (Pure.pure a : Session α) :=
  .answered (.of_metrics h rfl)

theorem fail (h : w.AtRest) (f : Failure) : Tallies w [] [] (Session.fail f : Session α) :=
  .failed (.of_metrics h rfl)

theorem ofExcept (h : w.AtRest) (r : Except Failure α) : Tallies w [] [] (Session.ofExcept r) := by
  cases r with
  | ok a => exact pure h a
  | error f => exact fail h f

end Tallies

theorem Proceeds.bind_run {x : ExceptT Failure Session α} {f : α → ExceptT Failure Session β}
    (h : Proceeds w x.run) (hf : ∀ a v, v.AtRest → Tallies v [] [] (f a).run) :
    Tallies w [] [] (x >>= f).run := by
  refine h.bind fun r v hv => ?_
  cases r with
  | ok a => exact hf a v hv
  | error f => exact .pure hv _

theorem run_bind_of_ok {x : ExceptT Failure Session α} {a : α} {v : World}
    (h : x.run w = (.ok (.ok a), v)) (f : α → ExceptT Failure Session β) :
    (x >>= f).run w = (f a).run v :=
  bind_of_ok h _

theorem run_bind_of_failed {x : ExceptT Failure Session α} {failure : Failure} {v : World}
    (h : x.run w = (.ok (.error failure), v)) (f : α → ExceptT Failure Session β) :
    (x >>= f).run w = (.ok (.error failure), v) :=
  bind_of_ok h _

end Session

namespace RetryPolicy

theorem settled_of_links (p : Provider) (result : CallResult) {s : Series}
    (hs : s.isOfLinks = true) : settled p result s = 0 := by
  have hopened : s ≠ .breakerOpened p := Series.ne_of_links hs rfl
  have houtcome (label : String) : s ≠ .outcome p label := Series.ne_of_links hs rfl
  rw [settled, if_neg fun h => hopened h.2, Nat.zero_add]
  cases answer result with
  | ok outcome => exact if_neg (houtcome _)
  | error f => rfl

theorem call_count (policy : RetryPolicy) {p : Provider} {attempt : Attempt Outcome}
    (hcalm : attempt.run.Calm p) (w : World) {s : Series}
    (hs : s.isOfLinks = true) :
    ((policy.call p attempt).exec w).2.metrics.count s = w.metrics.count s := by
  cases hopen : w.breaker.isOpenAt p.name w.clock with
  | true =>
    have hskipped : s ≠ .breakerSkipped p := Series.ne_of_links hs rfl
    have houtcome : s ≠ .outcome p "not_cached" := Series.ne_of_links hs rfl
    rw [call_of_open hopen]
    simp [World.count, Metrics.count_add, hskipped, houtcome]
  | false =>
    have hheld : s ≠ .heldBack p := Series.ne_of_links hs rfl
    have hretried : s ≠ .retried p := Series.ne_of_links hs rfl
    obtain ⟨last, hcalled⟩ := policy.call_of_closed hcalm hopen
    rw [hcalled.counts hheld, if_neg hretried, settled_of_links p _ hs, Nat.add_zero]

end RetryPolicy

namespace Session.Proceeds

variable {α β : Type} {w : World}

theorem talk (h : w.AtRest) (t : Http.OnWire α) : Proceeds w (Session.talk t) :=
  .answered rfl (.outside h w.clients _)

theorem records (h : w.AtRest) (path : String) : Proceeds w (Session.records path) :=
  .answered rfl (.of_metrics h rfl)

theorem isStale (h : w.AtRest) (r : Record) : Proceeds w (Session.isStale r) :=
  .answered rfl (.of_metrics h.atReadWall rfl)

theorem upsert (h : w.AtRest) (path : String) (p : Provider) (outcome : FileOutcome) :
    Proceeds w (Session.upsert path p outcome) := by
  have hrun := upsert_eq path p outcome w
  have hupserted := w.store.upserted path p outcome w.wall
  generalize w.store.upsertAt path p outcome w.wall = r at hrun hupserted
  cases hupserted with
  | recorded => exact .answered hrun (.of_metrics ⟨h.limiter, h.patient⟩ rfl)
  | refused _ hreason =>
    refine .aborted hrun ?_
    rcases hreason with ⟨-, rfl⟩ | ⟨fault, rfl⟩ <;> rfl

theorem call (h : w.AtRest) (policy : RetryPolicy) (c : PolicyCall) :
    Proceeds w (c.session policy) := by
  cases hclient : w.clientOf? c.key c.provider with
  | none => exact .answered (c.session_of_none policy hclient) (.of_metrics h rfl)
  | some client =>
    have hrun := c.session_eq policy h hclient
    have hrests := Plan.atRest_exec (policy.call c.provider (c.attempt client)) h
    have hcounts (s : Series) := policy.call_count (c.calm_attempt client) w (s := s)
    obtain ⟨r, hr, -, -, hfatal⟩ := c.answered policy h
    generalize (policy.call c.provider (c.attempt client)).exec w = e at hrun hrests hcounts
    obtain ⟨f | outcome, v⟩ := e
    · obtain ⟨f' | _, v'⟩ := r <;> cases hrun.symm.trans hr
      exact .aborted hrun (Failure.aborts_of_isFatal (hfatal f rfl))
    · exact .answered hrun (.of_counts hrests hcounts)

end Session.Proceeds

namespace Relay

open Session (Proceeds Tallies)

variable (relay : Relay) (path : String) (key : Key) {w : World}

theorem tallies_revalidate (h : w.AtRest) (remote : String) (records : List Record) :
    Tallies w [] [] (relay.revalidate path key remote records) := by
  induction records generalizing w with
  | nil => exact .fail h _
  | cons r rest ih =>
    refine (Proceeds.isStale h r).bind fun isStale v hv => ?_
    split
    · refine (Proceeds.call hv relay.policy (.resolve key r.provider)).bind fun outcome v hv => ?_
      refine (Proceeds.upsert hv _ _ _).bind fun updated v hv => ?_
      split
      · exact .pure hv _
      · exact ih hv
    · exact ih hv

theorem tallies_fileLink (h : w.AtRest) : Tallies w [] [] (relay.fileLink path key) := by
  refine (Proceeds.records h path).bind fun records v hv => ?_
  split
  · exact .pure hv _
  · exact relay.tallies_revalidate path key hv _ records

theorem tallies_refreshLink (h : w.AtRest) (dead : CachedFile) :
    Tallies w [] [dead.provider] (relay.refreshLink path key dead) := by
  refine (Proceeds.call h relay.policy (.refresh key dead)).bind fun outcome v hv => ?_
  refine (Proceeds.upsert hv _ _ _).bind fun updated v hv => ?_
  split
  · exact .answered (World.tallied_linkRefreshed hv _ true)
  · exact .failed (World.tallied_linkRefreshed hv _ false)

theorem tallies_replaceLink (h : w.AtRest) (dead : CachedFile) :
    Tallies w [dead.provider] [dead.provider] (relay.replaceLink path key dead) :=
  World.Ends.after (World.tallied_deadLink h dead.provider)
    (relay.tallies_refreshLink path key (h.atCount _) dead)

theorem tallies_openOver (h : w.AtRest) (range : Option RangeRequest) (file : CachedFile) :
    Tallies w [] [] (relay.openOver path key range file) := by
  refine (Tallies.ofExcept h _).bind fun prepared v hv => ?_
  exact (Proceeds.talk hv prepared.send).bind_run
    (x := (relay.supply path key).send prepared) fun _ _ hv => .pure hv _

theorem tallies_openFresh (h : w.AtRest) (range : Option RangeRequest) (file : CachedFile) :
    Tallies w [] [] (relay.openFresh path key range file) := by
  refine (relay.tallies_openOver path key h range file).bind fun result v hv => ?_
  split
  · exact .pure hv _
  · exact .fail hv _

/-- The links that are found dead where a stream is opened: the link at hand, if it does not answer
    a probe, or not the request for the stream. -/
inductive FindsDead (range : Option RangeRequest) (w : World) : List Provider → Prop
  | unlinked {halt : Halt} {v : World} (h : relay.fileLink path key w = (.error halt, v)) :
    FindsDead range w []
  | dead {file : CachedFile} {v : World} (h : relay.fileLink path key w = (.ok file, v))
    (hprobe : ((isLinkAlive file.link).run v.wire).1 ≠ .ok true) :
    FindsDead range w [file.provider]
  | refused {file : CachedFile} {v : World} (h : relay.fileLink path key w = (.ok file, v))
    {wire : Http.Wire} (hprobe : (isLinkAlive file.link).run v.wire = (.ok true, wire))
    {f : Failure} {u : World}
    (hopen : relay.openOver path key range file { v with wire } = (.ok (.error f), u)) :
    FindsDead range w [file.provider]
  | alive {file : CachedFile} {v : World} (h : relay.fileLink path key w = (.ok file, v))
    {wire : Http.Wire} (hprobe : (isLinkAlive file.link).run v.wire = (.ok true, wire))
    (hopen : ∀ f u, relay.openOver path key range file { v with wire } ≠ (.ok (.error f), u)) :
    FindsDead range w []

theorem FindsDead.length_le {range : Option RangeRequest} {found : List Provider}
    (h : relay.FindsDead path key range w found) : found.length ≤ 1 := by
  cases h with
  | unlinked | alive => exact Nat.zero_le 1
  | dead | refused => exact le_refl 1

theorem tallies_openStream (h : w.AtRest) (range : Option RangeRequest) :
    ∃ found, relay.FindsDead path key range w found ∧
      Tallies w found found (relay.openStream path key range) := by
  have hfound := relay.tallies_fileLink path key h
  rcases hlink : relay.fileLink path key w with ⟨halt | file, v⟩
  · exact ⟨[], .unlinked hlink, hfound.bind_of_error hlink⟩
  have hv := (hfound.tallied hlink).rests
  rcases hprobe : (isLinkAlive file.link).run v.wire with ⟨alive, wire⟩
  have htalk : Session.talk (isLinkAlive file.link) v = (.ok alive, { v with wire }) := by
    simp only [Session.talk, ExceptT.mk, hprobe]
  have hprobed := (Proceeds.talk hv (isLinkAlive file.link)).tallies
  have hreplaced (u : World) (hu : u.AtRest) : Tallies u [file.provider] [file.provider] (do
      relay.openFresh path key range (← relay.replaceLink path key file)) :=
    (relay.tallies_replaceLink path key hu file).bind
      fun fresh _ hfresh => relay.tallies_openFresh path key hfresh range fresh
  by_cases halive : alive = .ok true
  · subst halive
    have hopens := relay.tallies_openOver path key (hprobed.tallied htalk).rests range file
    rcases hopen : relay.openOver path key range file { v with wire } with ⟨halt | f | stream, u⟩
    · refine ⟨[], .alive hlink hprobe fun f u' hfailed => ?_, ?_⟩
      · cases hopen.symm.trans hfailed
      · exact hfound.bind_of_ok hlink (hprobed.bind_of_ok htalk (hopens.bind_of_error hopen))
    · have hrest := hreplaced u (hopens.tallied hopen).rests
      refine ⟨_, .refused hlink hprobe hopen, ?_⟩
      exact hfound.bind_of_ok hlink (hprobed.bind_of_ok htalk (hopens.bind_of_ok hopen hrest))
    · have hrest := Tallies.pure (hopens.tallied hopen).rests stream
      refine ⟨[], .alive hlink hprobe fun f u' hfailed => ?_, ?_⟩
      · cases hopen.symm.trans hfailed
      · exact hfound.bind_of_ok hlink (hprobed.bind_of_ok htalk (hopens.bind_of_ok hopen hrest))
  · have hdead : ((isLinkAlive file.link).run v.wire).1 ≠ .ok true := by
      rw [hprobe]
      exact halive
    have hrest := hreplaced _ (hprobed.tallied htalk).rests
    refine ⟨_, .dead hlink hdead, hfound.bind_of_ok hlink (hprobed.bind_of_ok htalk ?_)⟩
    split
    · exact absurd rfl halive
    · exact hrest

theorem refresh_run (dead : CachedFile) (answer : Except Failure CachedFile) {v : World}
    (h : relay.replaceLink path key dead w = (answer.mapError .failure, v)) :
    ((relay.supply path key).refresh dead).run w = (.ok answer, v) := by
  cases answer <;> simp only [supply, Session.attempt, ExceptT.run, ExceptT.mk, h, Except.mapError]

theorem send_run (p : Prepared) (v : World) :
    ((relay.supply path key).send p).run v =
      (.ok (p.send.run v.wire).1, { v with wire := (p.send.run v.wire).2 }) :=
  rfl

theorem resume_of_failed {stream : LinkStream} {f : Failure} {v : World}
    (h : relay.replaceLink path key stream.file w = (.error (.failure f), v)) :
    (stream.resume (relay.supply path key)).run w = (.ok (.error f), v) :=
  Session.run_bind_of_failed (relay.refresh_run path key stream.file (.error f) h) _

theorem resume_of_fresh {stream : LinkStream} {fresh : CachedFile} {v : World}
    (h : relay.replaceLink path key stream.file w = (.ok fresh, v)) :
    ∃ answer wire, (stream.resume (relay.supply path key)).run w = (.ok answer, { v with wire }) ∧
      ∀ resumed, answer = .ok resumed → resumed.refreshed = stream.refreshed := by
  have hresume : (stream.resume (relay.supply path key)).run w =
      (liftM (stream.rest fresh) >>= fun prepared => do
        return stream.switch fresh (← (relay.supply path key).send prepared) :
          ExceptT Failure Session LinkStream).run v :=
    Session.run_bind_of_ok (relay.refresh_run path key stream.file (.ok fresh) h) _
  rw [hresume]
  rcases stream.rest fresh with f | prepared
  · exact ⟨.error f, v.wire, rfl, nofun⟩
  · have hprepared : (liftM (Except.ok prepared : Except Failure Prepared) :
        ExceptT Failure Session Prepared).run v = (.ok (.ok prepared), v) := rfl
    have hsend := relay.send_run path key prepared v
    rw [Session.run_bind_of_ok hprepared]
    generalize prepared.send.run v.wire = sent at hsend
    obtain ⟨f | r, wire⟩ := sent
    · exact ⟨.error f, _, Session.run_bind_of_failed hsend _, nofun⟩
    · exact ⟨.ok (stream.switch fresh r), _, Session.run_bind_of_ok hsend _,
        fun _ heq => Except.ok.inj heq ▸ rfl⟩

inductive Resumed (w : World) (stream : LinkStream) :
    Except Halt (Except Failure LinkStream) × World → Prop
  | done {answer : Except Failure LinkStream} {w' : World}
    (htallied : w.Tallied [stream.file.provider] [stream.file.provider] w')
    (hkept : ∀ resumed, answer = .ok resumed → resumed.refreshed = stream.refreshed) :
    Resumed w stream (.ok answer, w')
  | aborted {f : Failure} {w' : World} (h : f.aborts = true) : Resumed w stream (.ok (.error f), w')

theorem resumed (h : w.AtRest) (stream : LinkStream) :
    Resumed w stream ((stream.resume (relay.supply path key)).run w) := by
  have htallies := relay.tallies_replaceLink path key h stream.file
  rw [Tallies] at htallies
  rcases hreplace : relay.replaceLink path key stream.file w with ⟨halt | fresh, v⟩
  · rw [hreplace] at htallies
    cases htallies with
    | failed htallied =>
      rw [relay.resume_of_failed path key hreplace]
      exact .done htallied nofun
    | aborted habort =>
      rw [relay.resume_of_failed path key hreplace]
      exact .aborted habort
  · rw [hreplace] at htallies
    cases htallies with
    | answered htallied =>
      obtain ⟨answer, wire, hresume, hkept⟩ := relay.resume_of_fresh path key hreplace
      rw [hresume]
      exact .done (htallied.trans (.outside htallied.rests v.clients wire)) hkept

end Relay

def LinkStream.findsDead (stream : LinkStream) : List Provider :=
  if stream.refreshed || stream.pull.1.isOk then [] else [stream.file.provider]

theorem LinkStream.length_findsDead (stream : LinkStream) : stream.findsDead.length ≤ 1 := by
  rw [findsDead]
  split
  · exact Nat.zero_le 1
  · exact le_refl 1

theorem LinkStream.findsDead_of_refreshed {stream : LinkStream} (h : stream.refreshed = true) :
    stream.findsDead = [] := by
  rw [findsDead, h, Bool.true_or, if_pos rfl]

namespace Relay

/-- What a read of a stream comes to: unless its refresh is aborted, the link that it finds dead
    is refreshed, and that was the stream's refresh. -/
inductive Read (w : World) (stream : LinkStream) :
    Except Halt (Except Failure (Option Bytes) × LinkStream) × World → Prop
  | done {answer : Except Failure (Option Bytes)} {after : LinkStream} {w' : World}
    (htallied : w.Tallied stream.findsDead stream.findsDead w')
    (hspent : stream.refreshed = true ∨ stream.findsDead ≠ [] → after.refreshed = true) :
    Read w stream (.ok (answer, after), w')
  | aborted {f : Failure} {after : LinkStream} {w' : World} (h : f.aborts = true) :
    Read w stream (.ok (.error f, after), w')

variable (relay : Relay) (path : String) (key : Key) {w : World}

theorem Read.of_quiet {stream after : LinkStream} {answer : Except Failure (Option Bytes)}
    (h : w.AtRest) (hquiet : stream.findsDead = []) (hafter : after.refreshed = stream.refreshed) :
    Read w stream (.ok (answer, after), w) := by
  refine .done ?_ fun hspent => hafter.trans (hspent.resolve_right (absurd hquiet))
  rw [hquiet]
  exact .of_metrics h rfl

theorem read_next (h : w.AtRest) (stream : LinkStream) :
    Read w stream (stream.next (relay.supply path key) w) := by
  unfold LinkStream.next
  rcases hpull : stream.pull with ⟨f | chunk, after⟩
  · obtain ⟨-, hafter⟩ := LinkStream.pull_error hpull
    have hpulled := Reader.pull_refreshed hpull
    dsimp only
    split
    next hrefreshed =>
      exact .of_quiet h (by simp [LinkStream.findsDead, ← hpulled, hrefreshed]) hpulled
    next hfirst =>
      have hfound : stream.findsDead = [after.file.provider] := by
        have hfile : after.file = stream.file := by rw [hafter]
        rw [hpulled] at hfirst
        simp [LinkStream.findsDead, hpull, hfirst, hfile, Except.isOk, Except.toBool]
      let spent : LinkStream := { after with refreshed := true }
      have hresumed := relay.resumed path key h spent
      rcases hresume : (spent.resume (relay.supply path key)).run w with ⟨halt | answer, v⟩
      · rw [hresume] at hresumed
        cases hresumed
      · rw [hresume] at hresumed
        rw [Session.bind_of_ok hresume]
        cases hresumed with
        | aborted habort => exact .aborted habort
        | done htallied hkept =>
          rw [show spent.file.provider = after.file.provider from rfl, ← hfound] at htallied
          cases answer with
          | error f => exact .done htallied fun _ => rfl
          | ok resumed =>
            exact .done htallied fun _ => (Reader.pull_refreshed rfl).trans (hkept resumed rfl)
  · have hquiet : stream.findsDead = [] := by
      simp [LinkStream.findsDead, hpull, Except.isOk, Except.toBool]
    exact .of_quiet h hquiet (Reader.pull_refreshed hpull)

end Relay

/-- What happens to a service whose callers open streams and read from them. -/
inductive Playback where
  | openStream (path : String) (key : Key) (range : Option RangeRequest)
  | read (number : Nat)
  /-- Between two calls the world changes: time passes, other content is added, an upstream or a
      provider thinks better of it. -/
  | aside (w : World)

def Playback.reads (n : Nat) : Playback → Bool
  | .read m => m == n
  | _ => false

namespace Service

def play (relay : Relay) (s : Service) : Playback → Service
  | .openStream path key range => s.serve relay (.openStream path key range)
  | .read n => s.serve relay (.next n)
  | .aside world => { s with world }

def playAll (relay : Relay) (s : Service) (run : List Playback) : Service :=
  run.foldl (play relay) s

def told? (relay : Relay) (s : Service) : Playback → Option Failure
  | .openStream path key range =>
    match (relay.openStream path key range s.world).1 with
    | .error (.failure f) => some f
    | _ => none
  | .read n => s.streams[n]?.bind fun o =>
    match (o.stream.next (relay.supply o.path o.key) s.world).1 with
    | .ok (.error f, _) => some f
    | _ => none
  | .aside _ => none

/-- No caller is told of an aborted refresh, and nobody else finds dead links or refreshes links. -/
structure Plays (relay : Relay) (s : Service) (e : Playback) : Prop where
  unaborted : ∀ f ∈ s.told? relay e, f.aborts = false
  apart {w : World} (he : e = .aside w) : s.world.Tallied [] [] w

def PlaysAll (relay : Relay) : Service → List Playback → Prop
  | _, [] => True
  | s, e :: rest => s.Plays relay e ∧ PlaysAll relay (s.play relay e) rest

def foundBy (relay : Relay) (n : Nat) (p : Provider) : Service → List Playback → Int
  | _, [] => 0
  | s, e :: rest =>
    let after := s.play relay e
    (if e.reads n then (after.world.deadLinks p : Int) - s.world.deadLinks p else 0) +
      foundBy relay n p after rest

def Spent (n : Nat) (s : Service) : Prop := ∃ o, s.streams[n]? = some o ∧ o.stream.refreshed = true

def Finds (relay : Relay) (s : Service) (found : List Provider) : Playback → Prop
  | .openStream path key range => relay.FindsDead path key range s.world found
  | .read n => found = (s.streams[n]?.map fun o => o.stream.findsDead).getD []
  | .aside _ => found = []

/-- What one call does to the counts of links and to the streams. -/
structure Played (relay : Relay) (s : Service) (e : Playback) (found : List Provider)
    (s' : Service) : Prop where
  finds : s.Finds relay found e
  tallied : s.world.Tallied found found s'.world
  stays {n : Nat} (h : s.Spent n) : s'.Spent n
  spends {n : Nat} (he : e.reads n = true) (h : found ≠ []) : s'.Spent n

variable {relay : Relay} {s : Service} {e : Playback} {run rest : List Playback}
variable {found : List Provider}

theorem Finds.length_le (h : s.Finds relay found e) : found.length ≤ 1 := by
  cases e with
  | openStream path key range => exact Relay.FindsDead.length_le relay path key h
  | read n =>
    rw [Finds] at h
    cases ho : s.streams[n]? with
    | none =>
      rw [h, ho]
      exact Nat.zero_le 1
    | some o =>
      rw [h, ho]
      exact o.stream.length_findsDead
  | aside w =>
    rw [show found = [] from h]
    exact Nat.zero_le 1

theorem Finds.eq_nil (h : s.Finds relay found e) {n : Nat} (hreads : e.reads n = true)
    (hspent : s.Spent n) : found = [] := by
  cases e with
  | read m =>
    obtain rfl : m = n := eq_of_beq hreads
    obtain ⟨o, ho, hspent⟩ := hspent
    rw [Finds, ho] at h
    exact h.trans (LinkStream.findsDead_of_refreshed hspent)
  | openStream | aside => exact absurd hreads Bool.false_ne_true

theorem Spent.append {n : Nat} (h : s.Spent n) (w : World) (opened : List OpenStream) :
    Spent n ⟨w, s.streams ++ opened⟩ := by
  obtain ⟨o, ho, hspent⟩ := h
  exact ⟨o, (List.getElem?_append_left (List.getElem?_eq_some_iff.1 ho).1).trans ho, hspent⟩

theorem Spent.set {n m : Nat} (h : s.Spent n) (w : World) {o : OpenStream}
    (ho : s.streams[m]? = some o) {after : LinkStream}
    (hafter : o.stream.refreshed = true → after.refreshed = true) :
    Spent n ⟨w, s.streams.set m { o with stream := after }⟩ := by
  obtain ⟨o', ho', hspent⟩ := h
  by_cases hm : m = n
  · subst hm
    obtain rfl : o = o' := Option.some.inj (ho.symm.trans ho')
    exact ⟨_, List.getElem?_set_self (List.getElem?_eq_some_iff.1 ho).1, hafter hspent⟩
  · exact ⟨o', (List.getElem?_set_ne hm).trans ho', hspent⟩

theorem played_openStream (h : s.world.AtRest) {path : String} {key : Key}
    {range : Option RangeRequest} (hplays : s.Plays relay (.openStream path key range)) :
    ∃ found, s.Played relay (.openStream path key range) found
      (s.play relay (.openStream path key range)) := by
  obtain ⟨found, hfinds, htallies⟩ := relay.tallies_openStream path key h range
  have htold := hplays.unaborted
  have hunread {n : Nat} (he : (Playback.openStream path key range).reads n = true) : False :=
    Bool.false_ne_true he
  rw [told?] at htold
  rw [Session.Tallies] at htallies
  rw [play, serve]
  generalize relay.openStream path key range s.world = r at htallies htold
  refine ⟨found, hfinds, ?_, ?_, fun he => (hunread he).elim⟩
  · cases htallies with
    | answered htallied | failed htallied => exact htallied
    | aborted habort => exact absurd ((htold _ rfl).symm.trans habort) Bool.false_ne_true
  · intro n hspent
    cases htallies with
    | answered => exact hspent.append _ _
    | failed | aborted => exact hspent

theorem played_read (h : s.world.AtRest) {n : Nat} (hplays : s.Plays relay (.read n)) :
    ∃ found, s.Played relay (.read n) found (s.play relay (.read n)) := by
  have htold := hplays.unaborted
  rw [told?] at htold
  rw [play, serve]
  cases ho : s.streams[n]? with
  | none =>
    have hfinds : s.Finds relay [] (.read n) := by rw [Finds, ho]; rfl
    exact ⟨[], hfinds, .of_metrics h rfl, id, fun _ hnot => absurd rfl hnot⟩
  | some o =>
    have hfinds : s.Finds relay o.stream.findsDead (.read n) := by rw [Finds, ho]; rfl
    have hread := relay.read_next o.path o.key h o.stream
    rw [ho] at htold
    dsimp only
    dsimp only [Option.bind_some] at htold
    generalize o.stream.next (relay.supply o.path o.key) s.world = r at hread htold
    cases hread with
    | aborted habort => exact absurd ((htold _ rfl).symm.trans habort) Bool.false_ne_true
    | done htallied hspent =>
      refine ⟨_, hfinds, htallied, fun hm => ?_, fun {m} hm hfound => ?_⟩
      · exact hm.set _ ho fun hfirst => hspent (.inl hfirst)
      · obtain rfl : n = m := eq_of_beq hm
        exact ⟨_, List.getElem?_set_self (List.getElem?_eq_some_iff.1 ho).1, hspent (.inr hfound)⟩

theorem played (h : s.world.AtRest) (hplays : s.Plays relay e) :
    ∃ found, s.Played relay e found (s.play relay e) := by
  cases e with
  | openStream path key range => exact played_openStream h hplays
  | read n => exact played_read h hplays
  | aside w => exact ⟨[], rfl, hplays.apart rfl, id, fun he => absurd he Bool.false_ne_true⟩

theorem playsAll_append :
    s.PlaysAll relay (run ++ rest) ↔
      s.PlaysAll relay run ∧ (s.playAll relay run).PlaysAll relay rest := by
  induction run generalizing s with
  | nil => exact (iff_of_eq (true_and _)).symm
  | cons e run ih => exact (and_congr_right fun _ => ih).trans and_assoc.symm

theorem tallied_playAll (h : s.world.AtRest) (hplays : s.PlaysAll relay run) :
    ∃ found, s.world.Tallied found found (s.playAll relay run).world := by
  induction run generalizing s with
  | nil => exact ⟨[], .of_metrics h rfl⟩
  | cons e run ih =>
    obtain ⟨found, hplayed⟩ := played h hplays.1
    obtain ⟨more, hrest⟩ := ih hplayed.tallied.rests hplays.2
    exact ⟨found ++ more, hplayed.tallied.trans hrest⟩

/-- A stream that has had its refresh finds no more dead links, and any other at most one. -/
theorem foundBy_playAll (h : s.world.AtRest) (hplays : s.PlaysAll relay run) (n : Nat) :
    ∃ found : List Provider, found.length ≤ 1 ∧ (s.Spent n → found = []) ∧
      ∀ p, s.foundBy relay n p run = found.count p := by
  induction run generalizing s with
  | nil => exact ⟨[], Nat.zero_le 1, fun _ => rfl, fun _ => rfl⟩
  | cons e run ih =>
    obtain ⟨found, hplayed⟩ := played h hplays.1
    obtain ⟨more, honce, hspent, hmore⟩ := ih hplayed.tallied.rests hplays.2
    by_cases hreads : e.reads n = true
    · have hfound (p : Provider) :
          s.foundBy relay n p (e :: run) = (found.count p : Int) + more.count p := by
        rw [foundBy, if_pos hreads, hmore, hplayed.tallied.deadLinks]
        omega
      -- a read that finds a dead link leaves the stream without a refresh for the rest of the run
      by_cases hnone : found = []
      · subst hnone
        refine ⟨more, honce, fun h => hspent (hplayed.stays h), fun p => ?_⟩
        rw [hfound, List.count_nil, Int.natCast_zero, Int.zero_add]
      · obtain rfl := hspent (hplayed.spends hreads hnone)
        refine ⟨found, hplayed.finds.length_le, hplayed.finds.eq_nil hreads, fun p => ?_⟩
        rw [hfound, List.count_nil, Int.natCast_zero, Int.add_zero]
    · refine ⟨more, honce, fun h => hspent (hplayed.stays h), fun p => ?_⟩
      rw [foundBy, if_neg hreads, Int.zero_add, hmore]

end Service

/-- However upstreams and providers behave, as long as no refresh is aborted, as many links of each
    provider are found dead as are refreshed. Each call counts the dead links that it finds: one at
    most where a stream is opened, and one at most in all reads of a stream together. -/
theorem dead_links_are_as_many_as_refreshes (relay : Relay) {s : Service} (hrest : s.world.AtRest)
    (hstart : ∀ p, s.world.deadLinks p = s.world.refreshes p) {run : List Playback}
    (hplays : s.PlaysAll relay run) :
    (∀ p, (s.playAll relay run).world.deadLinks p = (s.playAll relay run).world.refreshes p) ∧
      (∀ before e rest, run = before ++ e :: rest →
        ∃ found, found.length ≤ 1 ∧ (s.playAll relay before).Finds relay found e ∧
          ∀ p, (s.playAll relay (before ++ [e])).world.deadLinks p =
            (s.playAll relay before).world.deadLinks p + found.count p) ∧
      ∀ n, ∃ found : List Provider, found.length ≤ 1 ∧
        ∀ p, s.foundBy relay n p run = found.count p := by
  refine ⟨fun p => ?_, fun before e rest heq => ?_, fun n => ?_⟩
  · obtain ⟨found, htallied⟩ := Service.tallied_playAll hrest hplays
    rw [htallied.deadLinks, htallied.refreshes, hstart]
  · subst heq
    obtain ⟨hbefore, hcall, -⟩ := Service.playsAll_append.1 hplays
    obtain ⟨_, htallied⟩ := Service.tallied_playAll hrest hbefore
    obtain ⟨found, hplayed⟩ := Service.played htallied.rests hcall
    refine ⟨found, hplayed.finds.length_le, hplayed.finds, fun p => ?_⟩
    rw [Service.playAll, List.foldl_append]
    exact hplayed.tallied.deadLinks p
  · obtain ⟨found, honce, -, hfound⟩ := Service.foundBy_playAll hrest hplays n
    exact ⟨found, honce, hfound⟩

/-- A film whose link is dead, and dies again under its first reader. The fresh link leads nowhere;
    the reader reads on, and another one comes when the film's provider is gone. -/
theorem dead_links_are_as_many_as_refreshes_of_film :
    let film : Record :=
      ⟨.premiumize, .cached, 9, some "http://host/film", some 3, none, some "film.mkv", .empty⟩
    let provider : Client := .scripted
      { provider := .premiumize, kind := .torrent, answers := [], fallback := .ok true,
        listings := [], files := .ok [], link := .ok (some "http://host/fresh"), delayMs := 3,
        asked := (0, 0, 0) }
    let wire : Http.Wire := ⟨[some ⟨404, [], [], .close⟩, some ⟨200, [], [1], .length 3⟩,
      some ⟨404, [], [], .close⟩], [], .common⟩
    let store : Store := ⟨⟨Dictionary.empty.insert "/film" [film], none⟩, ⟨5, 5, 5, 5⟩⟩
    let s : Service := ⟨World.start [provider] (.ofStandard .standard) store wire (fun _ => 20), []⟩
    let relay : Relay := ⟨⟨0, 0, 0⟩⟩
    let opens : Playback := .openStream "/film" (.torrent "hash" "magnet") none
    let first : List Playback := [opens, .read 0, .read 0, .read 0]
    let run : List Playback :=
      first ++ [.aside { (s.playAll relay first).world with clients := [] }, opens, .read 0]
    s.PlaysAll relay run ∧
      (∀ p, (s.playAll relay run).world.deadLinks p = (s.playAll relay run).world.refreshes p) ∧
      (∃ found, found.length ≤ 1 ∧ s.Finds relay found opens ∧
        ∀ p, (s.play relay opens).world.deadLinks p = s.world.deadLinks p + found.count p) ∧
      (∃ found : List Provider, found.length ≤ 1 ∧
        ∀ p, s.foundBy relay 0 p run = found.count p) ∧
      s.foundBy relay 0 .premiumize run = 1 ∧
      (s.playAll relay run).world.deadLinks .premiumize = 3 ∧
      (s.playAll relay run).world.metrics.count (.linkRefreshed .premiumize true) = 2 ∧
      (s.playAll relay run).world.metrics.count (.linkRefreshed .premiumize false) = 1 := by
  intro film provider wire store s relay opens first run
  have hrest : s.world.AtRest := ⟨Limiter.atRest_ofStandard .standard, rfl⟩
  have hstart (p : Provider) : s.world.deadLinks p = s.world.refreshes p := rfl
  have hfirst : s.PlaysAll relay first := by
    refine ⟨⟨?_, nofun⟩, ⟨?_, nofun⟩, ⟨?_, nofun⟩, ⟨?_, nofun⟩, trivial⟩ <;> decide +kernel
  let gone : Playback := .aside { (s.playAll relay first).world with clients := [] }
  let bereft : Service := (s.playAll relay first).play relay gone
  have hopens : ∀ f ∈ bereft.told? relay opens, f.aborts = false := by decide +kernel
  have hreads : ∀ f ∈ (bereft.play relay opens).told? relay (.read 0), f.aborts = false := by
    decide +kernel
  have hcounts : s.foundBy relay 0 .premiumize run = 1 ∧
      (s.playAll relay run).world.deadLinks .premiumize = 3 ∧
      (s.playAll relay run).world.metrics.count (.linkRefreshed .premiumize true) = 2 ∧
      (s.playAll relay run).world.metrics.count (.linkRefreshed .premiumize false) = 1 := by
    decide +kernel
  have hrun : run = [] ++ opens :: run.tail := rfl
  clear_value s first
  obtain ⟨_, htallied⟩ := Service.tallied_playAll hrest hfirst
  have hgone : (s.playAll relay first).Plays relay gone := by
    refine ⟨nofun, fun he => ?_⟩
    rw [← Playback.aside.inj he]
    exact .outside htallied.rests [] (s.playAll relay first).world.wire
  have hplays : s.PlaysAll relay run :=
    Service.playsAll_append.2 ⟨hfirst, hgone, ⟨hopens, nofun⟩, ⟨hreads, nofun⟩, trivial⟩
  obtain ⟨hequal, hcalls, honce⟩ := dead_links_are_as_many_as_refreshes relay hrest hstart hplays
  exact ⟨hplays, hequal, hcalls [] opens _ hrun, honce 0, hcounts⟩

end LinkRelay
