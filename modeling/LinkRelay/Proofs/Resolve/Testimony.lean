import LinkRelay.Proofs.Resolve.Chronicle
set_option autoImplicit false

/-!
# Where outcomes come from

The trace of a call shows what its outcome rests on: an answer of its client, or an open circuit
before which nobody is asked.
-/

namespace LinkRelay

/-- What the trace of a call over a client shows about the outcome that the call came to. -/
inductive Testifies (client : Nat) (trace : List Access) : PolicyCall → Outcome → Prop
  | skipped {call : PolicyCall} (hopen : .checked call.provider true ∈ trace)
    (hquiet : ∀ c q, .asked c q ∉ trace) : Testifies client trace call .notCached
  | absent {key : Key} {p : Provider}
    (h : .answered client (.isCached key) (.ok false) ∈ trace) :
    Testifies client trace (.resolve key p) .notCached
  | listed {key : Key} {p : Provider} {files : List CachedFile}
    (h : .answered client (.files key) (.ok files) ∈ trace) :
    Testifies client trace (.resolve key p) (if files.isEmpty then .notCached else .cached files)
  | unlinked {key : Key} {file : CachedFile}
    (h : .answered client (.link key file) (.ok none) ∈ trace) :
    Testifies client trace (.refresh key file) .notCached
  | linked {key : Key} {file : CachedFile} {link : String} (now : Time)
    (h : .answered client (.link key file) (.ok (some link)) ∈ trace) :
    Testifies client trace (.refresh key file) (.cached [{ file with link, lastChecked := now }])
  | failed (call : PolicyCall) (trouble : Trouble) : Testifies client trace call (.failed trouble)

def PolicyCall.IsAbout (remote : String) : PolicyCall → Prop
  | .resolve .. => True
  | .refresh _ file => remote = file.path

inductive Lacks (client : Nat) (trace : List Access) (remote : String) : PolicyCall → Prop
  | absent {key : Key} {p : Provider}
    (h : .answered client (.isCached key) (.ok false) ∈ trace) :
    Lacks client trace remote (.resolve key p)
  | unlisted {key : Key} {p : Provider} {files : List CachedFile}
    (h : .answered client (.files key) (.ok files) ∈ trace)
    (hfiles : ∀ f ∈ files, f.path ≠ remote) : Lacks client trace remote (.resolve key p)
  | unlinked {key : Key} {file : CachedFile}
    (h : .answered client (.link key file) (.ok none) ∈ trace) (hremote : remote = file.path) :
    Lacks client trace remote (.refresh key file)

section Testimony

variable {client : Nat} {trace : List Access} {call : PolicyCall} {outcome : Outcome}
variable {remote : String}

theorem Testifies.cons (h : Testifies client trace call outcome) {access : Access}
    (haside : access.isAside = true) : Testifies client (access :: trace) call outcome := by
  cases h with
  | skipped hopen hquiet =>
    refine .skipped (List.mem_cons_of_mem _ hopen) fun c q hmem => ?_
    rcases List.mem_cons.1 hmem with rfl | hmem
    · cases haside
    · exact hquiet c q hmem
  | absent h => exact .absent (List.mem_cons_of_mem _ h)
  | listed h => exact .listed (List.mem_cons_of_mem _ h)
  | unlinked h => exact .unlinked (List.mem_cons_of_mem _ h)
  | linked now h => exact .linked now (List.mem_cons_of_mem _ h)
  | failed => exact .failed _ _

theorem Outcome.ne_of_forFile {files : List CachedFile}
    (h : (Outcome.cached files).forFile remote = .missing) : ∀ f ∈ files, f.path ≠ remote := by
  rw [forFile] at h
  cases hfind : files.find? fun f => f.path == remote with
  | some file => simp [hfind] at h
  | none => exact fun f hf heq => List.find?_eq_none.1 hfind f hf (beq_iff_eq.2 heq)

/-- A call that did not find a file either asked for it and was told so, or did not ask. -/
theorem Testifies.lacks (h : Testifies client trace call outcome)
    (hmissing : outcome.forFile remote = .missing) (hremote : call.IsAbout remote) :
    Lacks client trace remote call ∨
      .checked call.provider true ∈ trace ∧ ∀ c q, .asked c q ∉ trace := by
  cases h with
  | skipped hopen hquiet => exact .inr ⟨hopen, hquiet⟩
  | absent h => exact .inl (.absent h)
  | @listed _ _ files h =>
    refine .inl (.unlisted h ?_)
    cases files with
    | nil => exact List.forall_mem_nil _
    | cons f rest => exact Outcome.ne_of_forFile hmissing
  | unlinked h => exact .inl (.unlinked h hremote)
  | linked now h =>
    have hother := Outcome.ne_of_forFile hmissing _ List.mem_cons_self
    exact absurd (Eq.symm hremote) hother
  | failed => cases hmissing

end Testimony

def Rule.free : Rule := fun _ _ => True

def PolicyCall.Testified (call : PolicyCall) (client : Nat) (trace : List Access)
    (r : CallResult) : Prop :=
  ∀ outcome, r = .ok outcome → Testifies client trace call outcome

theorem PolicyCall.testified_error {call : PolicyCall} {client : Nat} {trace : List Access}
    {f : Failure} : call.Testified client trace (.error f) := by
  rintro _ ⟨⟩

theorem PolicyCall.conducts (call : PolicyCall) (client : Nat) :
    Rule.free.Conducts call.provider (fun _ => True) (call.Testified client) where
  aside _ _ _ := ⟨trivial, trivial⟩
  kept _ _ h haside outcome hok := (h outcome hok).cons haside
  between _ := trivial
  conceded _ := by
    rintro _ ⟨rfl⟩
    exact .failed call _
  skipped := by
    rintro _ ⟨rfl⟩
    exact .skipped (List.mem_singleton_self _) fun c q hmem => nomatch List.mem_singleton.1 hmem
  begun := trivial

namespace Attempt

variable {trace : List Access}

theorem follows_awaitTurn_free (p : Provider) :
    (awaitTurn p).run.Follows .free (fun _ _ => True) trace := by
  refine follows_bind (P := fun _ _ => True)
    (.awaitTurn trivial trivial (fun _ => .done trivial) (.done trivial)) (fun trace waited _ => ?_)
    fun _ _ _ => trivial
  split
  · exact .count trivial (.done trivial)
  · exact .done trivial

theorem testified_turn_ask (p : Provider) (client : Nat) (q : Question) {call : PolicyCall}
    {f : q.Answer → Attempt Outcome} (hf : ∀ trace answer,
      .answered client q (.ok answer) ∈ trace →
        (f answer).run.Follows .free (call.Testified client) trace) :
    (awaitTurn p >>= fun _ => ask client q >>= f).run.Follows .free (call.Testified client)
      trace := by
  have hask (trace : List Access) : (ask client q).run.Follows .free
      (fun trace answer => .answered client q answer ∈ trace) trace :=
    .place trivial fun _ => .pause trivial
      (.receive (fun _ => trivial) fun _ => .done List.mem_cons_self)
  refine follows_bind (follows_awaitTurn_free p) (fun trace _ _ => ?_)
    fun _ _ _ => PolicyCall.testified_error
  exact follows_bind (hask trace) hf fun _ _ _ => PolicyCall.testified_error

theorem testified_resolve (client : Nat) (p : Provider) (key : Key) :
    (resolve client p key).run.Follows .free ((PolicyCall.resolve key p).Testified client)
      trace := by
  refine testified_turn_ask p client (.isCached key) fun trace isCached hasked => ?_
  cases isCached with
  | false =>
    refine .done ?_
    rintro _ ⟨rfl⟩
    exact .absent hasked
  | true =>
    refine testified_turn_ask p client (.files key) fun trace files hlisted => .done ?_
    rintro _ ⟨rfl⟩
    exact .listed hlisted

theorem testified_refresh (client : Nat) (key : Key) (file : CachedFile) :
    (refresh client key file).run.Follows .free ((PolicyCall.refresh key file).Testified client)
      trace := by
  refine testified_turn_ask file.provider client (.link key file) fun trace link hasked => ?_
  cases link with
  | none =>
    refine .done ?_
    rintro _ ⟨rfl⟩
    exact .unlinked hasked
  | some link =>
    refine .readClock (fun _ => trivial) fun now => .done ?_
    rintro _ ⟨rfl⟩
    exact .linked now (List.mem_cons_of_mem _ hasked)

end Attempt

namespace Request

def call (p : Provider) : Request → PolicyCall
  | .everyone key => .resolve key p
  | .one call => call

theorem call_provider {w : World} {r : Request} {client : Nat × Provider}
    (hclient : client ∈ r.clients w) : (r.call client.2).provider = client.2 := by
  cases r with
  | everyone key => rfl
  | one call =>
    obtain ⟨n, -, rfl⟩ := Option.map_eq_some_iff.1 (Option.mem_toList.1 hclient)
    rfl

theorem mem_clientsFor {w : World} {r : Request} {client : Nat × Provider}
    (hclient : client ∈ r.clients w) : client ∈ w.clientsFor (r.call client.2).key.kind := by
  cases r with
  | everyone key => exact hclient
  | one call =>
    obtain ⟨n, hn, rfl⟩ := Option.map_eq_some_iff.1 (Option.mem_toList.1 hclient)
    exact World.clientOf?_mem hn

theorem plan_testified (policy : RetryPolicy) (w : World) (r : Request) (client : Nat × Provider)
    (hclient : client ∈ r.clients w) :
    (r.plan policy client).Follows .free ((r.call client.2).Testified client.1) [] := by
  cases r with
  | everyone key =>
    exact policy.follows_call ((PolicyCall.resolve key client.2).conducts client.1)
      fun _ _ => Attempt.testified_resolve client.1 client.2 key
  | one call =>
    obtain ⟨n, -, rfl⟩ := Option.map_eq_some_iff.1 (Option.mem_toList.1 hclient)
    refine policy.follows_call (call.conducts n) fun _ _ => ?_
    cases call with
    | resolve key p => exact Attempt.testified_resolve n p key
    | refresh key file => exact Attempt.testified_refresh n key file

end Request

theorem Chronicle.testifies {policy : RetryPolicy} {w : World} {c : Chronicle}
    (hrun : (opened w).Run policy c) {f : Finish CallResult} (hf : f ∈ c.hall.machine.finishes) :
    ∃ r client, c.hall.tasks[f.task]? = some (r, client) ∧
      (r.call client.2).Testified client.1 (c.trace f.task) f.result := by
  have hfollows :
      c.Follows (fun _ _ => .free) fun r client => (r.call client.2).Testified client.1 :=
    .run (Request.plan_testified policy) hrun
  have hstage := hfollows.recorded.results hf
  have hlt := (List.getElem?_eq_some_iff.1 hstage).1
  have htask := List.getElem?_eq_getElem (hfollows.size ▸ hlt)
  cases hfollows.stages htask hstage with
  | finished h => exact ⟨_, _, htask, h⟩

end LinkRelay
