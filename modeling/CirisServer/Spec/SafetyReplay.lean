import CirisServer.ForStd.List
import CirisServer.Native.SafetyRoutes
import CirisServer.Spec.SafetyFlag

/-!
# Resent requests to the signed safety routes

A signed request does not say which route it is for, or when it was made, and nothing
remembers it, so it is taken again whenever the route's checks pass. This module says in
which runs a request that was captured is of no use: those in which no resent request passes
the checks of a route, unless it is the request's own route and nothing of the signer's has
taken effect from that request on.

Key results:
- `handleSafety_rows`: a request takes effect by the one row it stores
- `step_worthNothing_iff`: what one delivery preserves, and when
- `unreplayed_iff_worthNothing`: the runs in which a captured request is worth nothing
- `resent_clear_lifts_flag`: an old clear, resent, lifts a newer flag
-/

namespace CirisServer.Infohazard

open Run Watchlist

/-! ## Effects -/

/-- A row in one of the four stores, with what it is filed under. -/
inductive SafetyRow where
  | flag (subjectKeyId : String) (row : Row)
  | watchlist (groupKeyId : String) (row : WatchlistRow)
  | moderation (row : ModerationRow)
  | age (subjectKeyId : String) (row : AgeRow)

def SafetyRows.add (rows : SafetyRows) : SafetyRow → SafetyRows
  | .flag subject row =>
    { rows with flags := Function.update rows.flags subject (rows.flags subject ++ [row]) }
  | .watchlist group row =>
    { rows with
      watchlists := Function.update rows.watchlists group (rows.watchlists group ++ [row]) }
  | .moderation row => { rows with moderations := rows.moderations ++ [row] }
  | .age subject row =>
    { rows with ages := Function.update rows.ages subject (rows.ages subject ++ [row]) }

/-- The row that the request stores, if it passes the checks of the route. -/
def admittedRow (substrateSigner : Option String) (h : Handling) (route : SafetyRoute)
    (req : SignedRequest) : Option SafetyRow :=
  let caller := req.caller h
  match route with
  | .flag =>
    (flagGate substrateSigner h.env caller (req.decode h FlagRequest.ofJson)).toOption.map
      fun (r, signer) => .flag r.subjectKeyId
        (contentFlagRow signer r.contentClass (decide (r.action = .clear)) h.env.now)
  | .watchlist =>
    (watchlistGate h.env caller (req.decode h watchlistRequestOfJson)).toOption.map
      fun r => .watchlist r.enable.groupKeyId r.row
  | .moderation =>
    (moderationGate h.env caller (req.decode h ModerationRequest.ofJson)).toOption.map
      fun r => .moderation (moderationRow r)
  | .ageAssurance =>
    (setAgeGate h.env caller (req.decode h SetAgeRequest.ofJson)).toOption.map
      fun r => .age r.subjectKeyId (ageRow r.subjectKeyId (r.level.getD .selfDeclared) r.band)

/-- The row that the request stores, if persist takes it. -/
def stored (substrateSigner : Option String) (h : Handling) (route : SafetyRoute)
    (req : SignedRequest) : Option SafetyRow :=
  match h.env.emit with
  | .error _ => none
  | .ok _ => admittedRow substrateSigner h route req

/-- **Effect.** A route stores one row for a request it takes, and else nothing. -/
theorem handleSafety_rows (substrateSigner : Option String) (h : Handling) (route : SafetyRoute)
    (req : SignedRequest) (rows : SafetyRows) :
    (handleSafety substrateSigner h route req rows).1 =
      (stored substrateSigner h route req).elim rows rows.add := by
  cases route with
  | flag =>
    simp only [handleSafety, flag, stored, admittedRow]
    cases flagGate substrateSigner h.env (req.caller h) (req.decode h FlagRequest.ofJson) with
    | error answer => cases h.env.emit <;> rfl
    | ok r => cases h.env.emit <;> rfl
  | watchlist =>
    simp only [handleSafety, Watchlist.watchlist, stored, admittedRow]
    cases watchlistGate h.env (req.caller h) (req.decode h watchlistRequestOfJson) with
    | error answer => cases h.env.emit <;> rfl
    | ok r => cases h.env.emit <;> cases h.env.promote <;> rfl
  | moderation =>
    simp only [handleSafety, moderation, stored, admittedRow]
    cases moderationGate h.env (req.caller h) (req.decode h ModerationRequest.ofJson) with
    | error answer => cases h.env.emit <;> rfl
    | ok r => cases h.env.emit <;> cases h.env.promote <;> rfl
  | ageAssurance =>
    simp only [handleSafety, setAge, stored, admittedRow]
    cases setAgeGate h.env (req.caller h) (req.decode h SetAgeRequest.ofJson) with
    | error answer => cases h.env.emit <;> rfl
    | ok r => cases h.env.emit <;> cases h.env.promote <;> rfl

/-! ## Runs -/

/-- A request that took effect: which one it was, where, who signed it, and the row. -/
structure SafetyEffect where
  index : Nat
  route : SafetyRoute
  signer : String
  row : SafetyRow

/-- The stores, every request that its signer sent to a route, oldest first, and what took
    effect, oldest first. -/
structure SafetyWorld where
  rows : SafetyRows
  sent : List (SafetyRoute × SignedRequest)
  effects : List SafetyEffect

/-- A signer sends a new request to a route, or somebody who saw one resends it, to any
    route. Nobody else can sign for the signer. -/
inductive SafetyEvent where
  | send (route : SafetyRoute) (req : SignedRequest) (h : Handling)
  | resend (index : Nat) (route : SafetyRoute) (h : Handling)

def SafetyWorld.empty : SafetyWorld := ⟨⟨fun _ => [], fun _ => [], [], fun _ => []⟩, [], []⟩

def SafetyWorld.handle (substrateSigner : Option String) (w : SafetyWorld) (h : Handling)
    (index : Nat) (route : SafetyRoute) (req : SignedRequest) : SafetyWorld :=
  { w with
    rows := (handleSafety substrateSigner h route req w.rows).1
    effects := w.effects ++ ((stored substrateSigner h route req).map fun row =>
      ⟨index, route, req.keyId, row⟩).toList }

def SafetyWorld.step (substrateSigner : Option String) (w : SafetyWorld) :
    SafetyEvent → SafetyWorld
  | .send route req h =>
    { w with sent := w.sent ++ [(route, req)] }.handle substrateSigner h w.sent.length route req
  | .resend index route h =>
    match w.sent[index]? with
    | none => w
    | some (_, req) => w.handle substrateSigner h index route req

/-- Each request took effect at most once, on the route it was sent to, and not after a
    newer one of the same signer. -/
structure WorthNothing (w : SafetyWorld) : Prop where
  once : (w.effects.map SafetyEffect.index).Nodup
  route : ∀ x ∈ w.effects, ∃ req, w.sent[x.index]? = some (x.route, req)
  order : w.effects.Pairwise fun x y => x.signer = y.signer → x.index < y.index

/-- A resent request is refused, by the checks of the route or by persist; or it was sent to
    that route, and whatever took effect of its signer's is of older requests. -/
def Unreplayed (substrateSigner : Option String) (w : SafetyWorld) : SafetyEvent → Prop
  | .send _ _ _ => True
  | .resend index route h =>
    ∀ own req, w.sent[index]? = some (own, req) →
      stored substrateSigner h route req = none ∨
        own = route ∧ ∀ x ∈ w.effects, x.signer = req.keyId → x.index < index

/-- Every effect is of a request that was sent, by its signer. -/
def Traced (w : SafetyWorld) : Prop :=
  ∀ x ∈ w.effects, ∃ own req, w.sent[x.index]? = some (own, req) ∧ req.keyId = x.signer

/-- The rows are those of the effects, in their order. -/
def RowsOfEffects (w : SafetyWorld) : Prop :=
  w.rows = (w.effects.map SafetyEffect.row).foldl SafetyRows.add SafetyWorld.empty.rows

theorem Traced.lt {w : SafetyWorld} (h : Traced w) {x : SafetyEffect} (hx : x ∈ w.effects) :
    x.index < w.sent.length := by
  obtain ⟨own, req, hsent, -⟩ := h x hx
  exact (List.getElem?_eq_some_iff.mp hsent).1

/-! ## One delivery -/

variable {substrateSigner : Option String}

/-- A request that is not stored leaves no effect, and one that is leaves its own. -/
theorem handle_effects (substrateSigner : Option String) (w : SafetyWorld) (h : Handling)
    (index : Nat) (route : SafetyRoute) (req : SignedRequest) :
    (stored substrateSigner h route req = none ∧
      (w.handle substrateSigner h index route req).effects = w.effects) ∨
    ∃ row, stored substrateSigner h route req = some row ∧
      (w.handle substrateSigner h index route req).effects =
        w.effects ++ [⟨index, route, req.keyId, row⟩] := by
  simp only [SafetyWorld.handle]
  cases stored substrateSigner h route req with
  | none => exact Or.inl ⟨rfl, List.append_nil _⟩
  | some row => exact Or.inr ⟨row, rfl, rfl⟩

/-- **Inversion.** A delivery has no effect; or it is of a new request, and takes effect on
    the route it is sent to; or it is of an old request. -/
theorem step_effect_cases (w : SafetyWorld) (e : SafetyEvent) :
    ((∃ new, (w.step substrateSigner e).sent = w.sent ++ new) ∧
      (w.step substrateSigner e).effects = w.effects ∧ Unreplayed substrateSigner w e) ∨
    (∃ x req, (w.step substrateSigner e).sent = w.sent ++ [(x.route, req)] ∧
      (w.step substrateSigner e).effects = w.effects ++ [x] ∧
      x.index = w.sent.length ∧ x.signer = req.keyId ∧ Unreplayed substrateSigner w e) ∨
    ∃ x own req, (w.step substrateSigner e).sent = w.sent ∧
      (w.step substrateSigner e).effects = w.effects ++ [x] ∧
      w.sent[x.index]? = some (own, req) ∧ x.signer = req.keyId ∧
      (Unreplayed substrateSigner w e ↔
        own = x.route ∧ ∀ y ∈ w.effects, y.signer = x.signer → y.index < x.index) := by
  cases e with
  | send route req h =>
    rcases handle_effects substrateSigner { w with sent := w.sent ++ [(route, req)] } h
      w.sent.length route req with ⟨-, hsame⟩ | ⟨row, -, heffect⟩
    · exact Or.inl ⟨⟨_, rfl⟩, hsame, trivial⟩
    · exact Or.inr (Or.inl ⟨_, req, rfl, heffect, rfl, rfl, trivial⟩)
  | resend index route h =>
    cases hsent : w.sent[index]? with
    | none =>
      have hstep : w.step substrateSigner (.resend index route h) = w := by
        simp only [SafetyWorld.step, hsent]
      rw [hstep]
      refine Or.inl ⟨⟨[], (List.append_nil _).symm⟩, rfl, ?_⟩
      intro own req hreq
      rw [hsent] at hreq
      cases hreq
    | some delivered =>
      obtain ⟨own, req⟩ := delivered
      have hstep : w.step substrateSigner (.resend index route h) =
          w.handle substrateSigner h index route req := by
        simp only [SafetyWorld.step, hsent]
      rw [hstep]
      rcases handle_effects substrateSigner w h index route req with
        ⟨hnone, hsame⟩ | ⟨row, hsome, heffect⟩
      · refine Or.inl ⟨⟨[], (List.append_nil _).symm⟩, hsame, ?_⟩
        intro own' req' hreq
        rw [hsent] at hreq
        cases hreq
        exact Or.inl hnone
      · refine Or.inr (Or.inr ⟨_, own, req, rfl, heffect, hsent, rfl, ?_⟩)
        constructor
        · intro hunreplayed
          rcases hunreplayed own req hsent with hnone | hfirst
          · rw [hsome] at hnone
            cases hnone
          · exact hfirst
        · intro hfirst own' req' hreq
          rw [hsent] at hreq
          cases hreq
          exact Or.inr hfirst

theorem step_traced (w : SafetyWorld) (e : SafetyEvent) (h : Traced w) :
    Traced (w.step substrateSigner e) := by
  have hkept : ∀ new x, x ∈ w.effects →
      ∃ own req, (w.sent ++ new)[x.index]? = some (own, req) ∧ req.keyId = x.signer := by
    intro new x hx
    rw [List.getElem?_append_left (h.lt hx)]
    exact h x hx
  intro x hx
  rcases step_effect_cases w e with ⟨⟨new, hsent⟩, heffects, -⟩ |
    ⟨y, req, hsent, heffects, hindex, hsigner, -⟩ | ⟨y, own, req, hsent, heffects, hy, hsigner, -⟩
  · rw [heffects] at hx
    rw [hsent]
    exact hkept new x hx
  · rw [heffects] at hx
    rw [hsent]
    rcases List.mem_append.mp hx with hx | hx
    · exact hkept _ x hx
    · obtain rfl := List.mem_singleton.mp hx
      exact ⟨x.route, req, by rw [hindex, List.getElem?_concat_length], hsigner.symm⟩
  · rw [heffects] at hx
    rw [hsent]
    rcases List.mem_append.mp hx with hx | hx
    · exact h x hx
    · obtain rfl := List.mem_singleton.mp hx
      exact ⟨own, req, hy, hsigner.symm⟩

/-- One more effect: it is on its own route, and all of its signer's are of older requests. -/
theorem worthNothing_append_iff {w w' : SafetyWorld} (h : Traced w) (hw : WorthNothing w)
    {x : SafetyEffect} {own : SafetyRoute} {req : SignedRequest} {new : List _}
    (hsent : w'.sent = w.sent ++ new) (heffects : w'.effects = w.effects ++ [x])
    (hx : w'.sent[x.index]? = some (own, req)) (hsigner : x.signer = req.keyId) :
    WorthNothing w' ↔
      own = x.route ∧ ∀ y ∈ w.effects, y.signer = x.signer → y.index < x.index := by
  constructor
  · intro hw'
    have hmem : x ∈ w'.effects := by
      rw [heffects]
      exact List.mem_append_right _ (List.mem_singleton_self x)
    obtain ⟨req', hroute⟩ := hw'.route x hmem
    have horder := hw'.order
    rw [hx, Option.some.injEq, Prod.mk.injEq] at hroute
    rw [heffects, List.pairwise_append] at horder
    exact ⟨hroute.1, fun y hy => horder.2.2 y hy x (List.mem_singleton_self x)⟩
  · intro ⟨hroute, horder⟩
    constructor
    · -- an effect of the same request would be of the same signer
      rw [heffects, List.map_append, List.map_singleton]
      apply nodup_append_singleton hw.once
      intro hmem
      obtain ⟨y, hy, hindex⟩ := List.mem_map.mp hmem
      obtain ⟨own', req', hy', hkey⟩ := h y hy
      rw [hsent, ← hindex, List.getElem?_append_left (h.lt hy), hy', Option.some.injEq,
        Prod.mk.injEq] at hx
      have hlt := horder y hy (by rw [hsigner, ← hkey, hx.2])
      omega
    · intro y hy
      rw [heffects] at hy
      rcases List.mem_append.mp hy with hy | hy
      · rw [hsent, List.getElem?_append_left (h.lt hy)]
        exact hw.route y hy
      · obtain rfl := List.mem_singleton.mp hy
        exact ⟨req, by rw [hx, hroute]⟩
    · rw [heffects, List.pairwise_append]
      refine ⟨hw.order, List.pairwise_singleton _ _, ?_⟩
      intro y hy z hz
      obtain rfl := List.mem_singleton.mp hz
      exact horder y hy

/-- **Step.** A delivery leaves captured requests worth nothing exactly if it is no replay. -/
theorem step_worthNothing_iff (w : SafetyWorld) (e : SafetyEvent) (h : Traced w)
    (hw : WorthNothing w) :
    Unreplayed substrateSigner w e ↔ WorthNothing (w.step substrateSigner e) := by
  rcases step_effect_cases w e with ⟨⟨new, hsent⟩, heffects, hok⟩ |
    ⟨x, req, hsent, heffects, hindex, hsigner, hok⟩ |
    ⟨x, own, req, hsent, heffects, hx, hsigner, hok⟩
  · refine iff_of_true hok ⟨?_, ?_, ?_⟩
    · rw [heffects]
      exact hw.once
    · intro x hx
      rw [heffects] at hx
      rw [hsent, List.getElem?_append_left (h.lt hx)]
      exact hw.route x hx
    · rw [heffects]
      exact hw.order
  · have hx : (w.step substrateSigner e).sent[x.index]? = some (x.route, req) := by
      rw [hsent, hindex, List.getElem?_concat_length]
    rw [worthNothing_append_iff h hw hsent heffects hx hsigner]
    refine iff_of_true hok ⟨rfl, fun y hy _ => ?_⟩
    rw [hindex]
    exact h.lt hy
  · have hx' : (w.step substrateSigner e).sent[x.index]? = some (own, req) := by
      rw [hsent, hx]
    have hsent' : (w.step substrateSigner e).sent = w.sent ++ [] := by
      rw [hsent, List.append_nil]
    rw [hok, worthNothing_append_iff h hw hsent' heffects hx' hsigner]

/-- What holds after a delivery held before it. -/
theorem worthNothing_of_step (w : SafetyWorld) (e : SafetyEvent) (h : Traced w)
    (hw : WorthNothing (w.step substrateSigner e)) : WorthNothing w := by
  obtain ⟨added, heffects⟩ :
      ∃ added, (w.step substrateSigner e).effects = w.effects ++ added := by
    rcases step_effect_cases w e with ⟨-, heffects, -⟩ | ⟨x, _, -, heffects, -⟩ |
      ⟨x, _, _, -, heffects, -⟩
    · exact ⟨[], heffects.trans (List.append_nil _).symm⟩
    · exact ⟨[x], heffects⟩
    · exact ⟨[x], heffects⟩
  obtain ⟨new, hsent⟩ : ∃ new, (w.step substrateSigner e).sent = w.sent ++ new := by
    rcases step_effect_cases w e with ⟨hsent, -⟩ | ⟨_, _, hsent, -⟩ | ⟨_, _, _, hsent, -⟩
    · exact hsent
    · exact ⟨_, hsent⟩
    · exact ⟨[], hsent.trans (List.append_nil _).symm⟩
  have honce := hw.once
  have horder := hw.order
  rw [heffects, List.map_append] at honce
  rw [heffects] at horder
  refine ⟨(List.nodup_append.mp honce).1, fun x hx => ?_, (List.pairwise_append.mp horder).1⟩
  have hroute := hw.route x (by rw [heffects]; exact List.mem_append_left _ hx)
  rwa [hsent, List.getElem?_append_left (h.lt hx)] at hroute

/-! ## Every run -/

theorem empty_worthNothing : WorthNothing SafetyWorld.empty :=
  { once := List.nodup_nil
    route := fun _ hx => absurd hx List.not_mem_nil
    order := List.Pairwise.nil }

theorem step_rowsOfEffects (w : SafetyWorld) (e : SafetyEvent) (h : RowsOfEffects w) :
    RowsOfEffects (w.step substrateSigner e) := by
  have hhandle : ∀ (w : SafetyWorld) h index route req, RowsOfEffects w →
      RowsOfEffects (w.handle substrateSigner h index route req) := by
    intro w h index route req hw
    rw [RowsOfEffects, SafetyWorld.handle, handleSafety_rows, List.map_append, List.foldl_append,
      ← hw]
    cases stored substrateSigner h route req <;> rfl
  cases e with
  | send route req hd => exact hhandle _ hd _ route req h
  | resend index route hd =>
    simp only [SafetyWorld.step]
    cases w.sent[index]? with
    | none => exact h
    | some delivered => exact hhandle w hd index route delivered.2 h

/-- The rows that a run leaves are those of the requests that took effect, in their order. -/
theorem run_rowsOfEffects (events : List SafetyEvent) :
    RowsOfEffects (after (SafetyWorld.step substrateSigner) SafetyWorld.empty events) :=
  after_invariant step_rowsOfEffects rfl

/-- The runs in which every request takes effect at most once, on its own route and not after
    a newer one of its signer, are those in which every resent request is refused, except on
    its own route before anything of its signer's, from that request on, has taken effect. -/
theorem unreplayed_iff_worthNothing (substrateSigner : Option String)
    (events : List SafetyEvent) :
    Guarded (SafetyWorld.step substrateSigner) (Unreplayed substrateSigner) SafetyWorld.empty
        events ↔
      WorthNothing (after (SafetyWorld.step substrateSigner) SafetyWorld.empty events) := by
  have htraced : Traced SafetyWorld.empty := fun _ hx => absurd hx List.not_mem_nil
  exact guarded_iff_after step_traced worthNothing_of_step step_worthNothing_iff htraced
    empty_worthNothing

/-! ### An old clear -/

/-- `mod-a` signs a request about one subject, under its own community. -/
def exampleFlagBody (action : String) : SignedRequest where
  keyId := "mod-a"
  body := .ok (.ofStrings
    [("signer_key_id", "mod-a"), ("community_key_id", "A"), ("subject_key_id", "subject"),
     ("content_class", "infohazard"), ("action", action)])

def exampleHandling (now : Int) : Handling := ⟨none, "missing field", exampleSafetyEnv now⟩

/-- The moderator flags, clears, and flags again; the clear is resent, and lifts the newer
    flag. -/
theorem resent_clear_lifts_flag :
    let w := after (SafetyWorld.step (some "substrate")) SafetyWorld.empty
      [.send .flag (exampleFlagBody "flag") (exampleHandling 1),
       .send .flag (exampleFlagBody "clear") (exampleHandling 2),
       .send .flag (exampleFlagBody "flag") (exampleHandling 3),
       .resend 1 .flag (exampleHandling 4)]
    let st := exampleState (w.rows.flags "subject") []
    ¬ WorthNothing w ∧ w.effects.map SafetyEffect.index = [0, 1, 2, 1] ∧
      subjectFlag st.directory 9 "subject" (some .infohazard) st.authority = .ok none := by
  intro w st
  have heffects : w.effects.map SafetyEffect.index = [0, 1, 2, 1] := by decide +kernel
  refine ⟨fun hw => ?_, heffects, by decide +kernel⟩
  have honce := hw.once
  rw [heffects] at honce
  exact absurd honce (by decide)

end CirisServer.Infohazard
