import LinkRelay.Proofs.Relay.Listings
import LinkRelay.Proofs.Resolve.Answers
import LinkRelay.Proofs.Resolve.Resolution
import LinkRelay.Proofs.Resolve.Unstored
set_option autoImplicit false

/-!
# Clients that list their own files

The services' own clients list files under their own provider, whatever comes over the wire. When
all clients of a key do, so do the answers of a resolution.
-/

namespace LinkRelay

namespace Http.OnWire

variable {α β : Type} {P : Except Failure α → Prop} {Q : Except Failure β → Prop}

/-- Whatever is on the wire, a talk comes to a result with a property. -/
def Gives (P : Except Failure α → Prop) (t : OnWire α) : Prop := ∀ wire, P (t.run wire).1

theorem Gives.bind {t : OnWire α} {f : α → OnWire β} (h : t.Gives P)
    (hok : ∀ a, P (.ok a) → (f a).Gives Q) (herror : ∀ f, P (.error f) → Q (.error f)) :
    (t >>= f).Gives Q := by
  intro wire
  have hresult := h wire
  rcases hrun : t.run wire with ⟨failure | a, wire'⟩
  · rw [hrun] at hresult
    rw [bind_of_error hrun]
    exact herror failure hresult
  · rw [hrun] at hresult
    rw [bind_of_ok hrun]
    exact hok a hresult wire'

theorem gives_true (t : OnWire α) : t.Gives fun _ => True := fun _ => trivial

theorem gives_lift {r : Except Failure α} (h : P r) : (liftM r : OnWire α).Gives P := by
  cases r with
  | ok a => exact fun _ => h
  | error f => exact fun _ => h

end Http.OnWire

def IsOwn (p : Provider) (a : Except Failure (List CachedFile)) : Prop :=
  ∀ files, a = .ok files → ∀ f ∈ files, f.provider = p

@[simp]
theorem isOwn_ok {p : Provider} {files : List CachedFile} :
    IsOwn p (.ok files) ↔ ∀ f ∈ files, f.provider = p :=
  ⟨fun h => h files rfl, fun h _ hfiles => by cases hfiles; exact h⟩

theorem Premiumize.files_isOwn (s : Premiumize) (moments : Nat → Time) (key : Key) :
    (s.files moments key).Gives (IsOwn .premiumize) := by
  have hnone : IsOwn .premiumize (.ok []) := by
    rintro _ ⟨rfl⟩ f hf
    cases hf
  cases key with
  | usenet release => exact fun _ => hnone
  | torrent hash magnet =>
    refine (s.entries magnet).gives_true.bind (fun entries _ _ => ?_) fun _ _ => nofun
    rintro _ ⟨rfl⟩ f hf
    obtain ⟨i, hi, rfl⟩ := List.mem_mapIdx.1 hf
    rfl

theorem Easynews.fileOf_provider {s : Easynews} {now : Time} {post : Post} {found : Found}
    {file : CachedFile} (h : s.fileOf now post found = .ok file) : file.provider = .easynews := by
  unfold fileOf at h
  dsimp only at h
  cases hlink : s.downloadLink
      ⟨post.filename ++ post.extension, post.size,
        MediaType.ofPath? (post.filename ++ post.extension), "", .easynews, now,
        paramsOf post found⟩ with
  | error f =>
    rw [hlink] at h
    cases h
  | ok link =>
    rw [hlink] at h
    cases h
    rfl

theorem Easynews.files_isOwn (s : Easynews) (now : Time) (key : Key) :
    (s.files now key).Gives (IsOwn .easynews) := by
  have hnone : IsOwn .easynews (.ok []) := by
    rintro _ ⟨rfl⟩ f hf
    cases hf
  cases key with
  | torrent hash magnet => exact fun _ => hnone
  | usenet release =>
    refine (s.find release).gives_true.bind (fun found _ => ?_) fun _ _ => nofun
    cases found.posts with
    | nil => exact fun _ => hnone
    | cons post rest =>
      have hfile : (liftM (s.fileOf now post found) : Http.OnWire CachedFile).Gives
          fun r => ∀ file, r = .ok file → file.provider = .easynews :=
        Http.OnWire.gives_lift fun file => fileOf_provider
      refine hfile.bind (fun file hprovider _ => ?_) fun _ _ => nofun
      rintro _ ⟨rfl⟩ f hf
      rw [List.mem_singleton.1 hf]
      exact hprovider file rfl

def Script.ListsOwn (s : Script) : Prop := ∀ a ∈ s.files :: s.listings, IsOwn s.provider a

namespace Script.ListsOwn

variable {s : Script}

theorem isCached (h : s.ListsOwn) (key : Key) :
    (s.answer (.isCached key)).2.provider = s.provider ∧
      (s.answer (.isCached key)).2.ListsOwn := by
  rw [answer]
  split <;> exact ⟨rfl, h⟩

theorem link (h : s.ListsOwn) (key : Key) (file : CachedFile) :
    (s.answer (.link key file)).2.provider = s.provider ∧
      (s.answer (.link key file)).2.ListsOwn := by
  rw [answer]
  split <;> exact ⟨rfl, h⟩

theorem files (h : s.ListsOwn) (key : Key) :
    IsOwn s.provider (s.answer (.files key)).1 ∧
      (s.answer (.files key)).2.provider = s.provider ∧ (s.answer (.files key)).2.ListsOwn := by
  rw [answer]
  split
  next a rest hlistings =>
    refine ⟨h a (by rw [hlistings]; simp), rfl, fun b hb => h b ?_⟩
    rw [hlistings]
    rcases List.mem_cons.1 hb with rfl | hb
    · exact List.mem_cons_self
    · exact List.mem_cons_of_mem _ (List.mem_cons_of_mem _ hb)
  next => exact ⟨h s.files List.mem_cons_self, rfl, h⟩

end Script.ListsOwn

def Client.ListsOwn : Client → Prop
  | .scripted s => s.ListsOwn
  | .premiumize _ | .easynews _ => True

def Client.having (p : Provider) (files : List CachedFile) : Client := .scripted
  { provider := p, kind := .torrent, answers := [], fallback := .ok true, listings := [],
    files := .ok files, link := .ok none, delayMs := 0, asked := (0, 0, 0) }

@[simp]
theorem Client.listsOwn_having {p : Provider} {files : List CachedFile} :
    (having p files).ListsOwn ↔ ∀ f ∈ files, f.provider = p := by
  simp [having, ListsOwn, Script.ListsOwn]

def Manner.listing (p : Provider) : Manner where
  client c := c.provider = p ∧ c.ListsOwn
  turn _ := True
  answer
    | .files _, a => IsOwn p a
    | .isCached _, _ | .link .., _ => True
  admits _ := trivial
  noted {c} h q := by
    cases c with
    | premiumize s | easynews s => exact h
    | scripted s => cases q <;> exact h
  answered {c} h moments wire q := by
    obtain ⟨rfl, hown⟩ := h
    cases c with
    | premiumize s =>
      cases q with
      | isCached key | link key file => exact ⟨trivial, rfl, trivial⟩
      | files key => exact ⟨s.files_isOwn moments key wire, rfl, trivial⟩
    | easynews s =>
      cases q with
      | isCached key | link key file => exact ⟨trivial, rfl, trivial⟩
      | files key => exact ⟨s.files_isOwn (moments 0) key wire, rfl, trivial⟩
    | scripted s =>
      cases q with
      | isCached key => exact ⟨trivial, Script.ListsOwn.isCached hown key⟩
      | files key => exact Script.ListsOwn.files hown key
      | link key file => exact ⟨trivial, Script.ListsOwn.link hown key file⟩

def IsOwnResult (p : Provider) (r : CallResult) : Prop :=
  ∀ o, r = .ok o → ∀ f ∈ o.files, f.provider = p

theorem Manner.listing_allows (p : Provider) : (listing p).Allows p (IsOwnResult p) where
  turn _ := nofun
  error _ := nofun
  listed h := by
    rintro _ ⟨rfl⟩ f hf
    exact h _ rfl f hf
  linked h link now := by
    rintro _ ⟨rfl⟩ f hf
    rw [List.mem_singleton.1 hf]
    exact h
  notCached := by
    rintro _ ⟨rfl⟩ f hf
    cases hf

namespace RetryPolicy

variable {policy : RetryPolicy} {key : Key} {w w' : World} {resolutions : List Resolution}

theorem within_listing (policy : RetryPolicy) (key : Key) (client : Nat × Provider) :
    (policy.resolveCall key client).Within (.listing client.2) client.2 client.1
      (IsOwnResult client.2) := by
  have hallows := Manner.listing_allows client.2
  refine within_call (Attempt.within_resolve hallows client.1 key) (fun r hr => ?_)
    hallows.notCached
  rintro o ho f hf
  cases r with
  | ok outcome => exact hr o ho f hf
  | error failure =>
    -- a failure lists nothing, whether it is told or made an outcome
    rw [answer] at ho
    split at ho <;> cases ho
    cases hf

theorem provider_of_mem_resolutionsOf {clients : List (Nat × Provider)}
    {finishes : List (Finish CallResult)} {r : Resolution}
    (h : r ∈ resolutionsOf clients finishes) :
    ∃ f ∈ finishes, ∃ client, clients[f.task]? = some client ∧ r.provider = client.2 ∧
      f.result = .ok r.outcome := by
  obtain ⟨⟨client, task⟩, hclient, hr⟩ := List.mem_filterMap.1 h
  dsimp only at hr
  obtain ⟨f, hfound, hresult⟩ := Option.bind_eq_some_iff.1 hr
  have htask := List.find?_some hfound
  obtain rfl : f.task = task := of_decide_eq_true htask
  refine ⟨f, List.mem_of_find?_eq_some hfound, client, List.mem_zipIdx_iff_getElem?.1 hclient, ?_⟩
  split at hresult
  next outcome hok =>
    cases hresult
    exact ⟨rfl, hok⟩
  next => cases hresult

/-- A resolution whose clients list their own files: every provider of the key is there in order,
    with none but its own files, and the store is left alone. -/
theorem resolve_lists (hrest : w.AtRest) (hproviders : ((w.clientsFor key.kind).map (·.2)).Nodup)
    (hown : ∀ c ∈ w.clients, c.supports key.kind = true → c.ListsOwn)
    (h : policy.resolve key w = (.ok resolutions, w')) :
    resolutions.map (·.provider) = (w.clientsFor key.kind).map (·.2) ∧
      (∀ r ∈ resolutions, r.ListsOwn) ∧ w'.store = w.store := by
  obtain ⟨asked, m, due, left, hruns, hforeseen, hanswered, hresolve⟩ :=
    policy.resolve_foreseen key hrest hproviders
  have hstore := Session.Keeps.resolve (J := fun s => s = w.store) policy key w rfl
  rw [h] at hstore
  rw [h, answerOf] at hresolve
  have hnone : firstFailure? m.finishes = none := by
    cases hfailure : firstFailure? m.finishes with
    | none => rfl
    | some f =>
      rw [hfailure] at hresolve
      cases hresolve
  rw [hnone] at hresolve
  cases hresolve
  have hover := Machine.isOver_of_isAnswered hanswered hnone
  have hsuits : ∀ call ∈ w.clientsFor key.kind,
      w.Suits (.listing call.2) call.2 call.1 := by
    intro call hcall
    obtain ⟨c, hc, hsupports, hprovider⟩ := World.mem_clientsFor.1 hcall
    exact ⟨hrest.limiter.toSound,
      ⟨c, hc, hprovider, hown c (List.mem_of_getElem? hc) hsupports⟩, .inl trivial⟩
  have hstart := Machine.Within.start (P := IsOwnResult) hrest.limiter.toSound hsuits
    fun call _ => within_listing policy key call
  have hwithin := hstart.runs hruns
  refine ⟨providers_of_asAlone (asAlone_of_isOver hrest hproviders hforeseen hover hnone),
    fun r hr => ?_, hstore⟩
  obtain ⟨f, hf, client, hclient, hprovider, hresult⟩ := provider_of_mem_resolutionsOf hr
  obtain ⟨client', hclient', hfiles⟩ := hwithin.finishes hf
  obtain rfl : client = client' := Option.some.inj (hclient.symm.trans hclient')
  rw [Resolution.ListsOwn, hprovider]
  exact hfiles _ hresult

end RetryPolicy

end LinkRelay
