import Capcurl.Resolve
import Capcurl.Session

/-! # What one connection is confined to -/

namespace Capcurl.Confinement

open Lib Http Policy Capcurl.Core Session Resolve

theorem run_confined (config : Config) (w : World) (r : EStateM.Result (Halt CoreError) World Unit)
    (h : Run config w r) :
    ∃ messages calls,
      (finalState r).transport.sent = w.transport.sent ++ messages ∧
      (finalState r).fetches = w.fetches ++ calls ∧ calls.length ≤ 1 ∧
      (∀ n, .fds n ∈ messages → ∃ m t found, BeginsMint m t w.transport.inbox ∧
        config.grant.resolve config.parseUrl m t = .ok found) ∧
      ∀ call ∈ calls, AsksFor config w call := by
  cases h with
  | unminted e t hsilent =>
    obtain ⟨messages, hsent, hnone⟩ := hsilent
    exact ⟨messages, [], hsent, by simp [finalState], by simp, fun n hn => absurd hn (hnone n), by simp⟩
  | deaf m target boundMethod url t e hmint hresolve hsent =>
    exact ⟨_, [], hsent, by simp [finalState], by simp, fun _ _ => ⟨m, target, _, hmint, hresolve⟩,
      by simp⟩
  | minted m target boundMethod url t r hmint hresolve hsent hserved =>
    obtain ⟨hfetches, htransport⟩ := answered_frame r
    obtain ⟨hsame, hcalls⟩ := served_calls _ _ _ _ _ r hserved
    rw [hfetches, htransport, hsame]
    rcases hcalls with hnone | ⟨call, unread, hone, hcall⟩
    · exact ⟨_, [], hsent, by simp [hnone], by simp, fun _ _ => ⟨m, target, _, hmint, hresolve⟩,
        by simp⟩
    · refine ⟨_, [call], hsent, hone, by simp, fun _ _ => ⟨m, target, _, hmint, hresolve⟩, ?_⟩
      intro c hc
      rw [List.mem_singleton.mp hc]
      exact ⟨m, target, boundMethod, url, unread, hmint, hresolve, hcall⟩

theorem calls_nil (config : Config) (w : World) (calls : List FetchCall) (m t : Text)
    (hcalls : ∀ call ∈ calls, AsksFor config w call) (hmint : BeginsMint m t w.transport.inbox)
    (hno : ∀ (call : FetchCall) head leftover s s',
      config.grant.resolve config.parseUrl m t = .ok (call.method, call.url) →
      readHead w.stream = .ok (head, leftover) s →
      eqIgnoreCase head.method call.method = true → head.target = boundTargetOf config.grant t →
      readBody config.profile head.framing leftover config.grant.maxRequestBody s =
        .ok call.body s' →
      config.grant.applyHeaders (clientHeaders head.headers) = .ok call.headers → False) :
    calls = [] := by
  apply List.eq_nil_iff_forall_not_mem.mpr
  intro call hcall
  obtain ⟨m', t', _, _, unread, hmint', hresolve, rfl, rfl, head, leftover, rest, hhead, hmethod, htarget,
    hbody, hheaders⟩ := hcalls call hcall
  obtain ⟨rfl, rfl⟩ := beginsMint_unique _ _ _ _ _ hmint hmint'
  exact hno call head leftover _ _ hresolve hhead hmethod htarget hbody hheaders

/-- **One connection is confined** to what its grant resolves: a descriptor is sent for a well-formed
mint that the grant permits, and `fetch` is called at most once, with the resolved pair, for a request
that names it. A run that fails a check calls nothing. -/
theorem connection_confined (config : Config) (w : World) :
    ∃ messages calls,
      (finalState (serveConnection config w)).transport.sent = w.transport.sent ++ messages ∧
      (finalState (serveConnection config w)).fetches = w.fetches ++ calls ∧
      (∀ n, .fds n ∈ messages → ∃ m t found, BeginsMint m t w.transport.inbox ∧
        config.grant.resolve config.parseUrl m t = .ok found) ∧
      calls.length ≤ 1 ∧
      (∀ call ∈ calls, ∃ m t head leftover s, BeginsMint m t w.transport.inbox ∧
        config.grant.resolve config.parseUrl m t = .ok (call.method, call.url) ∧
        call.method ∈ config.grant.methods.methods ∧
        (∀ fixed, config.grant.fixed = some fixed →
          canonicalize fixed.method = some call.method ∧ boundTargetOf config.grant t = fixed.target ∧
          ∃ n, normalizeTarget fixed.target config.grant.allowEncodedSeparators = .ok n ∧
            config.grant.join config.parseUrl n = .ok call.url) ∧
        readHead w.stream = .ok (head, leftover) s ∧
        eqIgnoreCase head.method call.method = true ∧ head.target = boundTargetOf config.grant t) ∧
      ((∀ m t, ¬ BeginsMint m t w.transport.inbox) → calls = []) ∧
      ∀ m t, BeginsMint m t w.transport.inbox →
        (∀ why, config.grant.resolve config.parseUrl m t = .error why → calls = []) ∧
        ∀ boundMethod url, config.grant.resolve config.parseUrl m t = .ok (boundMethod, url) →
          (∀ e s, readHead w.stream = .error e s → calls = []) ∧
          ∀ head leftover s, readHead w.stream = .ok (head, leftover) s →
            (eqIgnoreCase head.method boundMethod = false → calls = []) ∧
            (head.target ≠ boundTargetOf config.grant t → calls = []) ∧
            (∀ e s', readBody config.profile head.framing leftover config.grant.maxRequestBody s =
              .error e s' → calls = []) ∧
            ∀ why, config.grant.applyHeaders (clientHeaders head.headers) = .error why → calls = [] := by
  obtain ⟨messages, calls, hsent, hfetches, hone, hfds, hcalls⟩ :=
    run_confined config w _ (serveConnection_cases config w)
  refine ⟨messages, calls, hsent, hfetches, hfds, hone, ?_, ?_, ?_⟩
  · intro call hcall
    obtain ⟨m, t, _, _, unread, hmint, hresolve, rfl, rfl, head, leftover, rest, hhead, hmethod, htarget,
      -⟩ := hcalls call hcall
    have happroved := resolve_approved _ _ _ _ _ _ hresolve
    refine ⟨m, t, head, leftover, _, hmint, hresolve, happroved.permitted, ?_, hhead, hmethod, htarget⟩
    intro fixed hfixed
    have heffective : config.grant.effective m t = (fixed.method, fixed.target) := by
      unfold Grant.effective
      rw [hfixed]
    rw [heffective] at happroved
    obtain ⟨n, hn, -, -, hjoin⟩ := happroved.target
    exact ⟨happroved.canonical, by rw [boundTargetOf, hfixed], n, hn, hjoin⟩
  · intro hno
    apply List.eq_nil_iff_forall_not_mem.mpr
    intro call hcall
    obtain ⟨m, t, _, _, _, hmint, -⟩ := hcalls call hcall
    exact hno m t hmint
  · intro m t hmint
    have hnil := calls_nil config w calls m t hcalls hmint
    refine ⟨fun why hwhy => hnil ?_, fun boundMethod url hresolve => ⟨fun e s he => hnil ?_, ?_⟩⟩
    · intro call _ _ _ _ hresolve
      simp [hwhy] at hresolve
    · intro _ _ _ _ _ _ hhead
      simp [he] at hhead
    · intro head leftover s hhead
      refine ⟨fun hne => hnil ?_, fun hne => hnil ?_, fun e s' he => hnil ?_, fun why hwhy => hnil ?_⟩ <;>
        intro call head' leftover' s₁ s₂ hresolve' hhead' hmethod htarget hbody hheaders <;>
        rw [hhead, EStateM.Result.ok.injEq, Prod.mk.injEq] at hhead' <;>
        obtain ⟨⟨rfl, rfl⟩, rfl⟩ := hhead'
      · rw [hresolve, Except.ok.injEq, Prod.mk.injEq] at hresolve'
        rw [← hresolve'.1, hne] at hmethod
        cases hmethod
      · exact hne htarget
      · rw [he] at hbody
        cases hbody
      · rw [hwhy] at hheaders
        cases hheaders

end Capcurl.Confinement
