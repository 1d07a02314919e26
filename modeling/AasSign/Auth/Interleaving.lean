import AasSign.Auth.Cache

/-! # A refresh next to a login or a logout

Nothing on disk or in memory makes the processes wait for each other: a refresh
reads the cache, waits for the server, and then writes or deletes the cache
without looking at it again. The runs are those of a serial order, unless the
other process changes the cache between that reading and that change; then the
cache is what the refresh makes of the one that it had read.
-/

namespace AasSign

open Foundation

/-- No step of the trace changes the cache file. -/
def Silent (trace : List CacheEvent) : Prop := ∀ event ∈ trace, ¬ event.Modifies

/-- The process has at most one step left, which settles the cache file. -/
inductive Settles {α : Type} : CacheProcess α → Prop where
  | done (outcome : Except Bytes α) : Settles (.done outcome)
  | failed (outcome : Except Bytes α) : Settles (.act (fun (_ : Unit) _ => .failed)
      (fun _ contents => contents) fun _ _ => .done outcome)
  | wrote (body : Bytes) (outcome : Except Bytes α) : Settles (.act (fun (_ : Unit) _ => .wrote body)
      (fun _ _ => some body) fun _ _ => .done outcome)
  | deleted (outcome : Except Bytes α) : Settles (.act (fun (_ : Unit) _ => .deleted)
      (fun _ _ => none) fun _ _ => .done outcome)

/-- The process settles the cache file, if need be after one exchange with the
server; it does not read the file. -/
inductive Exchanges {α : Type} : CacheProcess α → Prop where
  | settled {p : CacheProcess α} (h : Settles p) : Exchanges p
  | post (url form : Bytes) {rest : Except Bytes HttpResponse → CacheProcess α}
      (h : ∀ outcome, Settles (rest outcome)) : Exchanges (httpsPostUrl url form rest)

section Shapes

variable {α : Type} {json : JsonLibrary} {dir : ConfigDir}

theorem writeCache_settles (j : Json) (outcome : Except Bytes Unit → Except Bytes α) :
    Settles (writeCache json dir j fun written => .done (outcome written)) := by
  unfold writeCache
  split
  · exact .done _
  · split
    · exact .failed _
    · exact .wrote _ _

theorem deleteCache_settles (outcome : Except Bytes Unit → Except Bytes α) :
    Settles (deleteCache dir fun removed => .done (outcome removed)) := by
  unfold deleteCache
  split
  · exact .failed _
  · exact .deleted _

theorem settleRefresh_settles (reply : RefreshReply) : Settles (settleRefresh json dir reply) := by
  cases reply with
  | throws what => exact .done _
  | rejected =>
      rw [settleRefresh, deleteCache]
      split
      · exact .failed _
      · exact .deleted _
  | token accessToken => exact .done _
  | rotated cache accessToken => exact writeCache_settles cache fun _ => .ok accessToken

theorem refreshFrom_exchanges (parsed : Except Bytes Json) :
    Exchanges (refreshFrom json dir parsed) := by
  unfold refreshFrom
  split
  · exact .settled (.done _)
  · split
    · exact .settled (.done _)
    · exact .settled (.done _)
    · apply Exchanges.post
      intro outcome
      cases outcome with
      | error what => exact .done _
      | ok resp => exact settleRefresh_settles _
  · exact .settled (.done _)

theorem loginMain_exchanges (session : LoginSession) : Exchanges (loginMain json dir session) := by
  apply Exchanges.post
  intro outcome
  cases outcome with
  | error what => exact .done _
  | ok resp =>
      dsimp only
      split
      · exact .done _
      · exact writeCache_settles _ id

end Shapes

/-! ## What the steps of such a process do -/

section Steps

variable {α β : Type} {s s' final : Option Bytes} {p p' : CacheProcess α} {q : CacheProcess β}
  {trace : List CacheEvent}

theorem Silent.append {first second : List CacheEvent} (hfirst : Silent first)
    (hsecond : Silent second) : Silent (first ++ second) := by
  intro event hevent
  rcases List.mem_append.mp hevent with hevent | hevent
  · exact hfirst event hevent
  · exact hsecond event hevent

/-- Steps that do not change the file can be taken on any other file, up to what
a process may have read; steps that change it are the last ones. -/
def ChangesLast (p : CacheProcess α) : Prop :=
  ∀ s trace s' p', Steps s p trace s' p' →
    (Silent trace ∧ s' = s ∧ ∀ m u final, (s = none → m = none) → Runs m p' u final →
      ∃ u', Runs m p u' final) ∨
    (¬ Silent trace ∧ ∃ outcome, p' = .done outcome)

theorem Settles.changesLast (hp : Settles p) : ChangesLast p := by
  intro s trace s' p' h
  cases h with
  | refl =>
      left
      exact ⟨by simp [Silent], rfl, fun m u final _ hruns => ⟨u, hruns⟩⟩
  | head choice h =>
      cases hp with
      | failed outcome =>
          obtain ⟨rfl, rfl, rfl⟩ := h.of_done
          left
          refine ⟨by simp [Silent, CacheEvent.Modifies], rfl, fun m u final _ hruns => ?_⟩
          obtain ⟨-, rfl⟩ := hruns.of_done
          exact ⟨_, .act () (.done _ outcome)⟩
      | wrote body outcome =>
          obtain ⟨rfl, rfl, rfl⟩ := h.of_done
          right
          exact ⟨by simp [Silent, CacheEvent.Modifies], outcome, rfl⟩
      | deleted outcome =>
          obtain ⟨rfl, rfl, rfl⟩ := h.of_done
          right
          exact ⟨by simp [Silent, CacheEvent.Modifies], outcome, rfl⟩

theorem Exchanges.changesLast (hp : Exchanges p) : ChangesLast p := by
  cases hp with
  | settled h => exact h.changesLast
  | post url form hrest =>
      intro s trace s' p' h
      cases h with
      | refl =>
          left
          exact ⟨by simp [Silent], rfl, fun m u final _ hruns => ⟨u, hruns⟩⟩
      | head choice h =>
          rcases (hrest choice).changesLast _ _ _ _ h with ⟨hsilent, hstate, hreplay⟩ | ⟨hloud, hdone⟩
          · left
            refine ⟨?_, hstate, fun m u final hm hruns => ?_⟩
            · simpa [Silent, CacheEvent.Modifies] using hsilent
            · obtain ⟨u', hruns⟩ := hreplay m u final hm hruns
              exact ⟨_, .act choice hruns⟩
          · right
            exact ⟨fun hsilent => hloud fun event hevent =>
              hsilent event (List.mem_cons_of_mem _ hevent), hdone⟩

/-- Next to another process, the process leaves the file alone, or makes one
change to it that does not depend on what the file holds by then. -/
inductive SettledBeside (s : Option Bytes) (p : CacheProcess α) (q : CacheProcess β)
    (trace : List (CacheEvent ⊕ CacheEvent)) (final : Option Bytes) : Prop where
  | quiet (u : List CacheEvent) (hother : Runs s q u final)
      (halone : ∀ s, ∃ t, Runs s p t s) (hmine : ∀ e, .inl e ∈ trace → ¬ e.Modifies) :
      SettledBeside s p q trace final
  | changed (s₁ m : Option Bytes) (q₁ : CacheProcess β) (t u w : List CacheEvent)
      (event : CacheEvent) (before : List (CacheEvent ⊕ CacheEvent)) (hmodifies : event.Modifies)
      (hother : Steps s q u s₁ q₁) (hrest : Runs m q₁ w final) (halone : ∀ s, Runs s p t m)
      (hevent : event ∈ t) (hsteps : ∀ e ∈ t, .inl e ∈ trace)
      (htrace : trace = before ++ .inl event :: w.map .inr)
      (hbefore : ∀ e, .inr e ∈ before ↔ e ∈ u)
      (hmine : ∀ e, .inl e ∈ before → ∃ url form outcome, e = .exchanged url form outcome) :
      SettledBeside s p q trace final

theorem Settles.beside {trace : List (CacheEvent ⊕ CacheEvent)} (hp : Settles p)
    (h : Interleaved s p q trace final) : SettledBeside s p q trace final := by
  cases hp with
  | done outcome =>
      obtain ⟨u, rfl, hruns⟩ := h.of_done
      exact .quiet u hruns (fun s => ⟨[], .done s outcome⟩) (by simp)
  | failed outcome =>
      obtain ⟨u, s₁, q₁, choice, trace', hsteps, rfl, hnext⟩ := h.split
      obtain ⟨w, rfl, hruns⟩ := hnext.of_done
      exact .quiet (u ++ w) (hruns.of_steps hsteps) (fun s => ⟨_, .act () (.done s outcome)⟩)
        (by simp [CacheEvent.Modifies])
  | wrote body outcome =>
      obtain ⟨u, s₁, q₁, choice, trace', hsteps, rfl, hnext⟩ := h.split
      obtain ⟨w, rfl, hruns⟩ := hnext.of_done
      exact .changed s₁ (some body) q₁ [.wrote body] u w (.wrote body) (u.map .inr) trivial hsteps
        hruns (fun s => .act () (.done _ outcome)) (by simp) (by simp) rfl (by simp) (by simp)
  | deleted outcome =>
      obtain ⟨u, s₁, q₁, choice, trace', hsteps, rfl, hnext⟩ := h.split
      obtain ⟨w, rfl, hruns⟩ := hnext.of_done
      exact .changed s₁ none q₁ [.deleted] u w .deleted (u.map .inr) trivial hsteps
        hruns (fun s => .act () (.done _ outcome)) (by simp) (by simp) rfl (by simp) (by simp)

theorem Exchanges.beside {trace : List (CacheEvent ⊕ CacheEvent)} (hp : Exchanges p)
    (h : Interleaved s p q trace final) : SettledBeside s p q trace final := by
  cases hp with
  | settled hsettles => exact hsettles.beside h
  | post url form hrest =>
      obtain ⟨u, s₁, q₁, choice, trace', hfirst, rfl, hnext⟩ := h.split
      cases (hrest choice).beside hnext with
      | quiet w hother halone hmine =>
          refine .quiet (u ++ w) (hother.of_steps hfirst) (fun s => ?_) ?_
          · obtain ⟨t, hruns⟩ := halone s
            exact ⟨_, .act choice hruns⟩
          · simpa [CacheEvent.Modifies] using hmine
      | changed s₂ m q₂ t v w event before hmodifies hother hlast halone hevent hsteps htrace
          hbefore hmine =>
          refine .changed s₂ m q₂ (.exchanged url form choice :: t) (u ++ v) w event
            (u.map .inr ++ .inl (.exchanged url form choice) :: before) hmodifies
            (hfirst.trans hother) hlast (fun s => .act choice (halone s))
            (List.mem_cons_of_mem _ hevent) ?_ ?_ ?_ ?_
          · simpa using fun e he => Or.inr (hsteps e he)
          · simp [htrace]
          · simp [hbefore]
          · simpa using hmine

end Steps

/-! ## Logout -/

section Logout

variable {dir : ConfigDir} {args : List Bytes} {contents final : Option Bytes}
  {trace : List CacheEvent}

/-- Without a file there is nothing that a deletion could change. -/
theorem deleteCache_none {α : Type} {outcome : Except Bytes Unit → Except Bytes α}
    (h : Runs none (deleteCache dir fun removed => .done (outcome removed)) trace final) :
    final = none := by
  unfold deleteCache at h
  obtain ⟨result, h⟩ := h
  split at h
  all_goals
    cases h with
    | head choice h =>
        obtain ⟨-, hfinal, -⟩ := h.of_done
        exact hfinal

theorem logoutMain_changesLast : ChangesLast (logoutMain dir args) := by
  cases args with
  | cons arg rest =>
      simp only [logoutMain]
      split
      · exact (Settles.done _).changesLast
      · exact (Settles.done _).changesLast
  | nil =>
      intro s trace s' p' h
      cases h with
      | refl =>
          left
          exact ⟨by simp [Silent], rfl, fun m u final _ hruns => ⟨u, hruns⟩⟩
      | head choice h =>
          cases s with
          | none =>
              obtain ⟨rfl, rfl, rfl⟩ := h.of_done
              left
              refine ⟨by simp [Silent, CacheEvent.Modifies], rfl, fun m u final hm hruns => ?_⟩
              obtain ⟨-, rfl⟩ := hruns.of_done
              rw [hm rfl]
              exact ⟨_, .act () (.done none _)⟩
          | some contents =>
              have hdelete : Settles (deleteCache dir fun removed => .done (removed.map fun _ => (0 : Int))) :=
                deleteCache_settles fun removed => removed.map fun _ => 0
              rcases hdelete.changesLast _ _ _ _ h with ⟨hsilent, hstate, hreplay⟩ | ⟨hloud, hdone⟩
              · left
                refine ⟨by simpa [Silent, CacheEvent.Modifies] using hsilent, hstate,
                  fun m u final hm hruns => ?_⟩
                obtain ⟨u', hruns⟩ := hreplay m u final (by simp) hruns
                cases m with
                | none =>
                    rw [deleteCache_none hruns]
                    exact ⟨_, .act () (.done none _)⟩
                | some contents => exact ⟨_, .act () hruns⟩
              · right
                exact ⟨fun hsilent => hloud fun event hevent =>
                  hsilent event (List.mem_cons_of_mem _ hevent), hdone⟩

end Logout

/-! ## The serial order, and the one exception -/

/-- The other process changes the cache after the refresh has read it and before
the refresh changes it. -/
def Overlaps (trace : List (CacheEvent ⊕ CacheEvent)) : Prop :=
  ∃ before contents between event after other,
    trace = before ++ .inl (.read contents) :: between ++ .inl event :: after ∧
    event.Modifies ∧ .inr other ∈ between ∧ other.Modifies

/-- The steps of the refresh. -/
def refreshSteps (trace : List (CacheEvent ⊕ CacheEvent)) : List CacheEvent :=
  trace.filterMap Sum.getLeft?

@[simp] theorem mem_refreshSteps {trace : List (CacheEvent ⊕ CacheEvent)} {event : CacheEvent} :
    event ∈ refreshSteps trace ↔ .inl event ∈ trace := by
  simp [refreshSteps, Sum.getLeft?_eq_some_iff]

/-- The cache is what the refresh made of the cache that it had read: there is none where the
server rejected the token, and it holds the new token where the server gave one. -/
inductive LeftByRefresh (json : JsonLibrary) (events : List CacheEvent) : Option Bytes → Prop where
  | rejected {bytes : Bytes} {fields : List (Bytes × Json)} {request : RefreshRequest}
      {resp : HttpResponse} {reply : Json} (hread : .read (some bytes) ∈ events)
      (hcache : json.extract bytes = .ok (.object fields))
      (hrequest : refreshRequest (.object fields) = .ok (some request))
      (hreply : .exchanged (tokenUrl request.tenant) request.form (.ok resp) ∈ events)
      (hstatus : resp.status ≠ 200) (hbody : json.parse resp.body = .ok reply)
      (herror : reply.field (ascii "error") = some (.string (ascii "invalid_grant")))
      (hdeleted : .deleted ∈ events) : LeftByRefresh json events none
  | rotated {bytes body token : Bytes} {fields : List (Bytes × Json)} {request : RefreshRequest}
      {resp : HttpResponse} {reply : Json} (hread : .read (some bytes) ∈ events)
      (hcache : json.extract bytes = .ok (.object fields))
      (hrequest : refreshRequest (.object fields) = .ok (some request))
      (hreply : .exchanged (tokenUrl request.tenant) request.form (.ok resp) ∈ events)
      (hstatus : resp.status = 200) (hbody : json.parse resp.body = .ok reply)
      (htoken : reply.field (ascii "refresh_token") = some (.string token))
      (hnonempty : token ≠ []) (hnew : token ≠ request.refreshToken)
      (hdump : json.dump ((Json.object fields).set (ascii "refresh_token") (.string token)) =
        .ok body)
      (hwrote : .wrote body ∈ events) : LeftByRefresh json events (some body)

section Left

variable {json : JsonLibrary} {dir : ConfigDir} {s m contents : Option Bytes}
  {t events : List CacheEvent} {event : CacheEvent}

theorem LeftByRefresh.mono (h : LeftByRefresh json t m) (hsub : ∀ e ∈ t, e ∈ events) :
    LeftByRefresh json events m := by
  cases h with
  | rejected hread hcache hrequest hreply hstatus hbody herror hdeleted =>
      exact .rejected (hsub _ hread) hcache hrequest (hsub _ hreply) hstatus hbody herror
        (hsub _ hdeleted)
  | rotated hread hcache hrequest hreply hstatus hbody htoken hnonempty hnew hdump hwrote =>
      exact .rotated (hsub _ hread) hcache hrequest (hsub _ hreply) hstatus hbody htoken hnonempty
        hnew hdump (hsub _ hwrote)

/-- After the exchange, a token that was rejected is removed, and a new one is stored. -/
theorem settleRefresh_changes {reply : RefreshReply} (h : Runs s (settleRefresh json dir reply) t m)
    (hevent : event ∈ t) (hmodifies : event.Modifies) :
    (reply = .rejected ∧ .deleted ∈ t ∧ m = none) ∨
      ∃ cache accessToken body, reply = .rotated cache accessToken ∧
        json.dump cache = .ok body ∧ .wrote body ∈ t ∧ m = some body := by
  obtain ⟨outcome, h⟩ := h
  cases reply with
  | throws what | token accessToken =>
      obtain ⟨rfl, -⟩ := h.of_done
      cases hevent
  | rejected =>
      rw [settleRefresh, deleteCache] at h
      split at h
      all_goals
        cases h with
        | head choice h =>
            obtain ⟨rfl, rfl, -⟩ := h.of_done
            rw [List.mem_singleton] at hevent
            subst hevent
            first
            | exact .inl ⟨rfl, List.mem_singleton_self _, rfl⟩
            | exact absurd hmodifies id
  | rotated cache accessToken =>
      rw [settleRefresh, writeCache] at h
      split at h
      next =>
        obtain ⟨rfl, -⟩ := h.of_done
        cases hevent
      next body hdump =>
        split at h
        all_goals
          cases h with
          | head choice h =>
              obtain ⟨rfl, rfl, -⟩ := h.of_done
              rw [List.mem_singleton] at hevent
              subst hevent
              first
              | exact .inr ⟨cache, accessToken, body, rfl, hdump, List.mem_singleton_self _, rfl⟩
              | exact absurd hmodifies id

/-- The change that a refresh makes is the one that the reply to it asks for. -/
theorem refreshFrom_changes (h : Runs s (refreshFrom json dir (parseCache json contents)) t m)
    (hevent : event ∈ t) (hmodifies : event.Modifies) :
    LeftByRefresh json (.read contents :: t) m := by
  have hdone {outcome : Except Bytes Bytes} (h : Runs s (.done outcome) t m) : False := by
    obtain ⟨rfl, -⟩ := h.of_done
    cases hevent
  unfold refreshFrom at h
  split at h
  next => exact (hdone h).elim
  next fields hparsed =>
    split at h
    next => exact (hdone h).elim
    next => exact (hdone h).elim
    next request hrequest =>
      cases contents with
      | none => cases hparsed
      | some bytes =>
          have hcache := parseCache_some.mp hparsed
          obtain ⟨outcome, h⟩ := h
          cases h with
          | head choice h =>
              -- The exchange changes nothing, so the change is behind it.
              have hrest := (List.mem_cons.mp hevent).resolve_left fun heq => by
                rw [heq] at hmodifies
                exact hmodifies
              cases choice with
              | error what =>
                  obtain ⟨rfl, -⟩ := h.of_done
                  cases hrest
              | ok resp =>
                  rcases settleRefresh_changes ⟨outcome, h⟩ hrest hmodifies with
                    ⟨hreply, hdeleted, rfl⟩ | ⟨cache, token, body, hreply, hdump, hwrote, rfl⟩
                  · obtain ⟨hstatus, reply, hbody, herror⟩ := refreshReply_eq_rejected.mp hreply
                    exact .rejected List.mem_cons_self hcache hrequest (by simp) hstatus hbody herror
                      (by simp [hdeleted])
                  · obtain ⟨hstatus, haccepted⟩ := refreshReply_accepted hreply nofun nofun
                    obtain ⟨reply, _, hbody, -, -, ⟨hout, -⟩ | ⟨new, hnonempty, hnew, hfield, hout⟩⟩ :=
                      acceptedReply_eq_ok haccepted
                    · cases hout
                    · cases hout
                      exact .rotated List.mem_cons_self hcache hrequest (by simp) hstatus hbody hfield
                        hnonempty hnew hdump (by simp [hwrote])
  next => exact (hdone h).elim

end Left

section Serial

variable {β : Type} {json : JsonLibrary} {dir : ConfigDir} {q : CacheProcess β}
  {initial final : Option Bytes} {trace : List (CacheEvent ⊕ CacheEvent)}

theorem exists_modifies_of_not_silent {u : List CacheEvent} (h : ¬ Silent u) :
    ∃ event ∈ u, event.Modifies := by
  simpa [Silent] using h

/-- Where the refresh makes no change, no overlap is one. -/
theorem not_overlaps_of_quiet (h : ∀ event, .inl event ∈ trace → ¬ event.Modifies) :
    ¬ Overlaps trace := by
  rintro ⟨before, contents, between, event, after, other, rfl, hmodifies, -⟩
  exact h event (by simp) hmodifies

/-- In an overlap, the change of the other process is between the reading of the refresh and its
one change. -/
theorem Overlaps.between {u w : List CacheEvent} {contents : Option Bytes} {event : CacheEvent}
    {before : List (CacheEvent ⊕ CacheEvent)}
    (h : Overlaps (u.map .inr ++ .inl (.read contents) :: (before ++ .inl event :: w.map .inr)))
    (hmine : ∀ e, .inl e ∈ before → ∃ url form outcome, e = .exchanged url form outcome) :
    ∃ other, .inr other ∈ before ∧ other.Modifies := by
  obtain ⟨first, contents', between, event', after, other, htrace, hmodifies, hother, hchanges⟩ := h
  have hlast : (u.map .inr ++ .inl (.read contents) :: before) ++ .inl event :: w.map .inr =
      (first ++ .inl (.read contents') :: between) ++ .inl event' :: after := by
    simpa using htrace
  rw [List.append_cons_inj_of_notMem] at hlast
  · have hread := hlast.1
    rw [List.append_cons_inj_of_notMem] at hread
    · exact ⟨other, hread.2.2 ▸ hother, hchanges⟩
    · simp
    · intro hmem
      obtain ⟨url, form, outcome, heq⟩ := hmine _ hmem
      cases heq
  · simp only [List.mem_append, List.mem_map, List.mem_cons, Sum.inl.injEq, reduceCtorEq, and_false,
      exists_false, false_or, not_or]
    constructor
    · rintro rfl
      exact hmodifies
    · intro hmem
      obtain ⟨url, form, outcome, rfl⟩ := hmine _ hmem
      exact hmodifies
  · simp

/-- A refresh next to a process that changes the cache in its last step only. -/
theorem tryCachedRefresh_beside (hq : ChangesLast q)
    (h : Interleaved initial (tryCachedRefresh json dir) q trace final) :
    (¬ Overlaps trace → Serializable initial (tryCachedRefresh json dir) q final) ∧
      (Overlaps trace → LeftByRefresh json (refreshSteps trace) final) := by
  obtain ⟨u, s₁, q₁, ⟨⟩, trace', hfirst, rfl, hnext⟩ := h.split
  have hrefresh {t : List CacheEvent} {m : Option Bytes}
      (hruns : Runs s₁ (refreshFrom json dir (parseCache json s₁)) t m) :
      Runs s₁ (tryCachedRefresh json dir) (.read s₁ :: t) m := .act () hruns
  cases (refreshFrom_exchanges (parseCache json s₁)).beside hnext with
  | quiet v hother halone hmine =>
      obtain ⟨t, hruns⟩ := halone s₁
      refine ⟨fun _ => ?_, fun hoverlaps => absurd hoverlaps (not_overlaps_of_quiet ?_)⟩
      · rcases hq _ _ _ _ hfirst with ⟨-, rfl, -⟩ | ⟨-, outcome, rfl⟩
        · exact .inl ⟨s₁, _, _, hrefresh hruns, hother.of_steps hfirst⟩
        · obtain ⟨-, rfl⟩ := hother.of_done
          exact .inr ⟨final, _, _, ⟨outcome, hfirst⟩, hrefresh hruns⟩
      · simpa [CacheEvent.Modifies] using hmine
  | changed s₃ m q₃ t v w event before hmodifies hother hlast halone hevent hsteps htrace hbefore
      hmine =>
      have hruns := halone s₁
      have hleft : LeftByRefresh json
          (refreshSteps (u.map .inr ++ .inl (.read s₁) :: trace')) m := by
        refine (refreshFrom_changes hruns hevent hmodifies).mono fun e he => ?_
        rcases List.mem_cons.mp he with rfl | he
        · simp
        · simp [hsteps e he]
      subst htrace
      have hbetween (hoverlaps : Overlaps
          (u.map .inr ++ .inl (.read s₁) :: (before ++ .inl event :: w.map .inr))) :
          ∃ other ∈ v, other.Modifies := by
        obtain ⟨other, hother, hchanges⟩ := Overlaps.between hoverlaps hmine
        exact ⟨other, (hbefore other).mp hother, hchanges⟩
      rcases hq _ _ _ _ hfirst with ⟨hsilent, rfl, -⟩ | ⟨-, outcome, rfl⟩
      · rcases hq _ _ _ _ (hfirst.trans hother) with ⟨hsilent', -, hreplay⟩ | ⟨hloud, outcome, rfl⟩
        · -- The other process has changed nothing yet: it can run after the refresh.
          have hm : s₁ = none → m = none := by
            rintro rfl
            obtain ⟨rfl, -⟩ := Runs.of_done hruns
            cases hevent
          obtain ⟨w', hruns'⟩ := hreplay m w final hm hlast
          refine ⟨fun _ => .inl ⟨m, _, _, hrefresh hruns, hruns'⟩, fun hoverlaps => ?_⟩
          obtain ⟨other, hmem, hchanges⟩ := hbetween hoverlaps
          exact absurd hchanges (hsilent' other (List.mem_append_right u hmem))
        · obtain ⟨rfl, rfl⟩ := hlast.of_done
          have hloud' : ¬ Silent v := fun hv => hloud (hsilent.append hv)
          obtain ⟨other, hmem, hchanges⟩ := exists_modifies_of_not_silent hloud'
          refine ⟨fun hnot => absurd ?_ hnot, fun _ => hleft⟩
          exact ⟨u.map .inr, s₁, before, event, [], other, by simp, hmodifies,
            (hbefore other).mpr hmem, hchanges⟩
      · -- The other process is done before the refresh reads the cache.
        obtain ⟨rfl, rfl, rfl⟩ := hother.of_done
        obtain ⟨-, rfl⟩ := hlast.of_done
        refine ⟨fun _ => .inr ⟨_, _, _, ⟨outcome, hfirst⟩, hrefresh hruns⟩, fun hoverlaps => ?_⟩
        obtain ⟨other, hmem, -⟩ := hbetween hoverlaps
        cases hmem

end Serial

/-- A refresh next to a login or a logout leaves the cache as one of the two
serial orders could, unless the other process changes the cache between the
reading and the change of the refresh. Then the cache is what the refresh made of
the one that it had read. -/
theorem tryCachedRefresh_serial_or_overlaps (json : JsonLibrary) (dir : ConfigDir)
    (session : LoginSession) (args : List Bytes) (initial final : Option Bytes)
    (trace : List (CacheEvent ⊕ CacheEvent)) :
    (Interleaved initial (tryCachedRefresh json dir) (loginMain json dir session) trace final →
      (¬ Overlaps trace →
        Serializable initial (tryCachedRefresh json dir) (loginMain json dir session) final) ∧
      (Overlaps trace → LeftByRefresh json (refreshSteps trace) final)) ∧
    (Interleaved initial (tryCachedRefresh json dir) (logoutMain dir args) trace final →
      (¬ Overlaps trace →
        Serializable initial (tryCachedRefresh json dir) (logoutMain dir args) final) ∧
      (Overlaps trace → LeftByRefresh json (refreshSteps trace) final)) :=
  ⟨tryCachedRefresh_beside (loginMain_exchanges session).changesLast,
    tryCachedRefresh_beside logoutMain_changesLast⟩

/-- Every interleaving of a refresh with a login or a logout leaves the cache as
a serial order could. -/
def CacheLinearizable (json : JsonLibrary) (dir : ConfigDir) (session : LoginSession)
    (args : List Bytes) : Prop :=
  ∀ initial trace final,
    (Interleaved initial (tryCachedRefresh json dir) (loginMain json dir session) trace final →
      Serializable initial (tryCachedRefresh json dir) (loginMain json dir session) final) ∧
    (Interleaved initial (tryCachedRefresh json dir) (logoutMain dir args) trace final →
      Serializable initial (tryCachedRefresh json dir) (logoutMain dir args) final)

theorem tryCachedRefresh_absent {json : JsonLibrary} {dir : ConfigDir} {trace : List CacheEvent}
    {final : Option Bytes} (h : Runs none (tryCachedRefresh json dir) trace final) :
    final = none := by
  obtain ⟨outcome, h⟩ := h
  cases h with
  | head choice h =>
      obtain ⟨-, hfinal, -⟩ := h.of_done
      exact hfinal

/-- After a logout that can remove files there is no cache. -/
theorem logoutMain_removes {writeError : Option Bytes} {initial final : Option Bytes}
    {trace : List CacheEvent} (h : Runs initial (logoutMain ⟨writeError, none⟩ []) trace final) :
    final = none := by
  obtain ⟨outcome, h⟩ := h
  cases h with
  | head choice h =>
      cases initial with
      | none =>
          obtain ⟨-, hfinal, -⟩ := h.of_done
          exact hfinal
      | some contents =>
          cases h with
          | head choice h =>
              obtain ⟨-, hfinal, -⟩ := h.of_done
              exact hfinal

def sampleCache : Json :=
  .object [(ascii "client_id", .string (ascii "c")), (ascii "refresh_token", .string (ascii "old"))]

def sampleReply : Json :=
  .object [(ascii "access_token", .string (ascii "a")),
    (ascii "refresh_token", .string (ascii "new"))]

def sampleCacheText : Bytes := ascii "\x7b\"client_id\":\"c\",\"refresh_token\":\"old\"\x7d"

def sampleReplyText : Bytes := ascii "\x7b\"access_token\":\"a\",\"refresh_token\":\"new\"\x7d"

def sampleRotatedText : Bytes :=
  ascii "\x7b\n  \"client_id\": \"c\",\n  \"refresh_token\": \"new\"\n\x7d"

/-- A JSON library that knows three texts. -/
def sampleJson : JsonLibrary where
  parse text := if text = sampleReplyText then .ok sampleReply else .error (ascii "syntax error")
  extract text := if text = sampleCacheText then .ok sampleCache else .error (ascii "syntax error")
  dump
    | .object [(_, .string _), (_, .string _)] => .ok sampleRotatedText
    | _ => .error (ascii "not supported")

def sampleSession : LoginSession := ⟨ascii "t", ascii "c", ascii "code", ascii "r", ascii "v"⟩

/-- The logout removes the cache while the refresh waits for the server. -/
def sampleBetween : List (CacheEvent ⊕ CacheEvent) :=
  [.inr (.read (some sampleCacheText)), .inr .deleted,
    .inl (.exchanged (tokenUrl defaultTenant)
      (RefreshRequest.form ⟨ascii "old", ascii "c", defaultTenant⟩) (.ok ⟨200, sampleReplyText⟩))]

/-- The refresh has read the cache before, and the rotated token brings it back. -/
def sampleTrace : List (CacheEvent ⊕ CacheEvent) :=
  .inl (.read (some sampleCacheText)) :: sampleBetween ++ [.inl (.wrote sampleRotatedText)]

theorem sampleCache_reappears :
    Interleaved (some sampleCacheText) (tryCachedRefresh sampleJson ⟨none, none⟩)
      (logoutMain ⟨none, none⟩ []) sampleTrace (some sampleRotatedText) :=
  .left () (.right () (.right () (.left
    (Except.ok (HttpResponse.mk 200 sampleReplyText)) (.left () (.done _ _ _)))))

theorem sampleTrace_left : Overlaps sampleTrace ∧
    LeftByRefresh sampleJson (refreshSteps sampleTrace) (some sampleRotatedText) := by
  have hoverlaps : Overlaps sampleTrace :=
    ⟨[], some sampleCacheText, sampleBetween, .wrote sampleRotatedText, [], .deleted, rfl, trivial,
      by simp [sampleBetween], trivial⟩
  exact ⟨hoverlaps, ((tryCachedRefresh_serial_or_overlaps sampleJson ⟨none, none⟩ sampleSession []
    _ _ sampleTrace).2 sampleCache_reappears).2 hoverlaps⟩

theorem not_cacheLinearizable :
    ¬ CacheLinearizable sampleJson ⟨none, none⟩ sampleSession [] := by
  intro h
  rcases (h _ _ _).2 sampleCache_reappears with ⟨m, t, u, -, hlogout⟩ | ⟨m, t, u, hlogout, hrefresh⟩
  · cases logoutMain_removes hlogout
  · rw [logoutMain_removes hlogout] at hrefresh
    cases tryCachedRefresh_absent hrefresh

end AasSign
