import CirisServer.Spec.SessionToken

/-!
# Logout is permanent

A check reads the secret and then the set of revoked nonces. A logout that finds the set full
rotates the secret and clears the set, and a check that read the old secret then finds an empty
set: the token it checks is let through, though its logout was answered long before.

Key results:
- `ended_step`: a token that was logged out is ended
- `logout_permanent`: every process whose rotations come between no check's two reads
- `rotation_resurrects`: a process in which one does
-/

namespace CirisServer.SessionToken

open Interleave Run

variable {L : Lib}

/-- Two secrets never give one mac to one message. -/
def Separates (L : Lib) : Prop :=
  ∀ key key' message, key.length = 32 → key'.length = 32 →
    L.base64Url (L.hmac key message) = L.base64Url (L.hmac key' message) → key = key'

/-- No token verifies under two secrets. -/
theorem Separates.eq_of_verifies (h : Separates L) {key key' : Secret} {token : String}
    (hlen : key.length = 32) (hlen' : key'.length = 32)
    (hv : sessionMacVerifies L key token = true) (hv' : sessionMacVerifies L key' token = true) :
    key = key' := by
  obtain ⟨waId, nonce, htoken, hparts⟩ := sessionMacVerifies_iff.mp hv
  obtain ⟨waId', nonce', htoken', hparts'⟩ := sessionMacVerifies_iff.mp hv'
  obtain ⟨rfl, rfl, hmac⟩ := spell_inj hparts hparts' (htoken ▸ htoken')
  exact h key key' _ hlen hlen' hmac

/-- A token that verifies has a nonce. -/
theorem sessionNonce_of_verifies {key : Secret} {token : String}
    (h : sessionMacVerifies L key token = true) : ∃ nonce, sessionNonce token = some nonce := by
  obtain ⟨waId, nonce, rfl, hparts⟩ := sessionMacVerifies_iff.mp h
  exact ⟨nonce, sessionNonce_spell hparts⟩

theorem sessionIsRevoked_iff {revoked : List String} {token : String} :
    sessionIsRevoked revoked token = true ↔
      ∃ nonce, sessionNonce token = some nonce ∧ nonce ∈ revoked := by
  simp [sessionIsRevoked, Option.any_eq_true]

namespace Fixture

theorem length_secret : secret.length = 32 := by decide

theorem hmac_inj {key key' : Secret} {message : List UInt8}
    (h : hmac key message = hmac key' message) : key = key' := by
  have hne : secret ≠ tag := by decide
  unfold hmac at h
  split_ifs at h <;> simp_all

theorem length_hmac {key : Secret} {bytes : List UInt8} (h : key.length = 32) :
    (hmac key bytes).length = 32 := by
  unfold hmac
  split_ifs
  · rfl
  · rfl
  · exact h

/-- The bytes a digit is cut from come back from it. -/
theorem base64UrlDigit_inj {m n : Nat} (hm : m < 64) (hn : n < 64)
    (h : base64UrlDigit m = base64UrlDigit n) : m = n := by
  have hlen : base64UrlAlphabet.length = 64 := by decide
  have hnodup : base64UrlAlphabet.Nodup := by decide
  exact (List.getD_inj (by omega) (by omega) hnodup).mp h

theorem base64UrlDigits_inj {bytes bytes' : List UInt8} (hlen : bytes.length = bytes'.length)
    (h : base64UrlDigits bytes = base64UrlDigits bytes') : bytes = bytes' := by
  induction bytes using base64UrlDigits.induct generalizing bytes' with
  | case1 => exact (List.eq_nil_of_length_eq_zero hlen.symm).symm
  | case2 a =>
    obtain ⟨a', rfl⟩ := List.length_eq_one_iff.mp hlen.symm
    simp only [base64UrlDigits, List.cons.injEq, and_true] at h ⊢
    have h₁ := base64UrlDigit_inj (by have := a.toNat_lt; omega) (by have := a'.toNat_lt; omega) h.1
    have h₂ := base64UrlDigit_inj (by omega) (by omega) h.2
    exact UInt8.toNat_inj.mp (by omega)
  | case3 a b =>
    obtain ⟨a', b', rfl⟩ := List.length_eq_two.mp hlen.symm
    simp only [base64UrlDigits, List.cons.injEq, and_true] at h ⊢
    have ha := a.toNat_lt
    have ha' := a'.toNat_lt
    have hb := b.toNat_lt
    have hb' := b'.toNat_lt
    have h₁ := base64UrlDigit_inj (by omega) (by omega) h.1
    have h₂ := base64UrlDigit_inj (by omega) (by omega) h.2.1
    have h₃ := base64UrlDigit_inj (by omega) (by omega) h.2.2
    exact ⟨UInt8.toNat_inj.mp (by omega), UInt8.toNat_inj.mp (by omega)⟩
  | case4 a b c rest ih =>
    rcases bytes' with - | ⟨a', - | ⟨b', - | ⟨c', rest'⟩⟩⟩
    · simp at hlen
    · simp at hlen
    · simp at hlen
    simp only [base64UrlDigits, List.cons.injEq] at h ⊢
    have ha := a.toNat_lt
    have ha' := a'.toNat_lt
    have hb := b.toNat_lt
    have hb' := b'.toNat_lt
    have hc := c.toNat_lt
    have hc' := c'.toNat_lt
    have h₁ := base64UrlDigit_inj (by omega) (by omega) h.1
    have h₂ := base64UrlDigit_inj (by omega) (by omega) h.2.1
    have h₃ := base64UrlDigit_inj (by omega) (by omega) h.2.2.1
    have h₄ := base64UrlDigit_inj (by omega) (by omega) h.2.2.2.1
    exact ⟨UInt8.toNat_inj.mp (by omega), UInt8.toNat_inj.mp (by omega),
      UInt8.toNat_inj.mp (by omega), ih (by simpa using hlen) h.2.2.2.2⟩

theorem separates : Separates lib := by
  intro key key' message hkey hkey' h
  have hlen : (hmac key message).length = (hmac key' message).length := by
    rw [length_hmac hkey, length_hmac hkey']
  exact hmac_inj (base64UrlDigits_inj hlen (String.ofList_injective h))

end Fixture

/-! ## What a step does -/

/-- The secrets of a process so far. -/
def Sessions.secrets (s : Sessions) : List Secret := s.secret :: s.past

/-- The revocation set is full. -/
def Sessions.Full (s : Sessions) : Prop := revokedSessionCap ≤ s.revoked.length

/-- Secrets stay and the set grows, or the secret is rotated. -/
inductive Effect (rotated : Secret) (s s' : Sessions) : Prop where
  | grown (hsecrets : s'.secrets = s.secrets) (hrevoked : s.revoked ⊆ s'.revoked)
  | rotated (hsecrets : s'.secrets = rotated :: s.secrets)

theorem Effect.refl {rotated : Secret} {s : Sessions} : Effect rotated s s :=
  .grown rfl fun _ h => h

/-- **Inversion.** Only the region of a logout that finds the set full rotates the secret. -/
theorem advance_effect (L : Lib) (env : Env) (t : Phase) (s : Sessions) :
    Effect env.rotated s (t.advance L env s).1 ∧
      ((t.advance L env s).1.secrets = s.secrets ∨ s.Full ∧ ∃ token, t = .revoking token) := by
  cases t with
  | called call =>
    cases call with
    | issue waId => exact ⟨.grown rfl fun _ h => h, Or.inl rfl⟩
    | isAuthentic token =>
      simp only [Phase.advance]
      split
      · exact ⟨.refl, Or.inl rfl⟩
      · exact ⟨.refl, Or.inl rfl⟩
    | revoke token =>
      simp only [Phase.advance]
      split
      · exact ⟨.refl, Or.inl rfl⟩
      · exact ⟨.refl, Or.inl rfl⟩
  | checking token => exact ⟨.refl, Or.inl rfl⟩
  | revoking token =>
    simp only [Phase.advance, Sessions.endSession]
    split
    · exact ⟨.refl, Or.inl rfl⟩
    · split
      next hfull => exact ⟨.rotated rfl, Or.inr ⟨hfull, token, rfl⟩⟩
      next => exact ⟨.grown rfl fun _ h => List.mem_insert_of_mem h, Or.inl rfl⟩
  | told answer => exact ⟨.refl, Or.inl rfl⟩

/-! ## Ended tokens -/

/-- A token of this process, which does not verify any more or is revoked. -/
def Ended (L : Lib) (s : Sessions) (token : String) : Prop :=
  (∃ key ∈ s.secrets, sessionMacVerifies L key token = true) ∧
    (sessionMacVerifies L s.secret token = true → sessionIsRevoked s.revoked token = true)

/-- What a call has seen. -/
def Seen (L : Lib) (s : Sessions) : Phase → Prop
  | .revoking token => ∃ key ∈ s.secrets, sessionMacVerifies L key token = true
  | .told (.revoked token true) => Ended L s token
  | _ => True

/-- The secrets are of 32 bytes. -/
def Keyed (s : Sessions) : Prop := ∀ key ∈ s.secrets, key.length = 32

/-- The region of a logout that rotates the secret. -/
def Rotates (c : Config Sessions Phase) (m : Move Call Env) : Prop :=
  ∃ i env token, m = .advance i env ∧ c.tasks[i]? = some (.revoking token) ∧ c.shared.Full

/-- The CSPRNG draws 32 bytes that were no secret before. -/
def FreshSecret (c : Config Sessions Phase) (m : Move Call Env) : Prop :=
  ∀ i env, m = .advance i env → Rotates c m →
    env.rotated.length = 32 ∧ env.rotated ∉ c.shared.secrets

/-- What is ended stays ended, whatever a step does. -/
theorem Ended.effect (hseparates : Separates L) {rotated : Secret} {s s' : Sessions}
    (hkeyed : Keyed s) (heffect : Effect rotated s s')
    (hfresh : s'.secrets = s.secrets ∨ rotated.length = 32 ∧ rotated ∉ s.secrets)
    {token : String} (h : Ended L s token) : Ended L s' token := by
  obtain ⟨⟨key, hkey, hverifies⟩, hrevoked⟩ := h
  cases heffect with
  | grown hsecrets hgrown =>
    have hsecret : s'.secret = s.secret := (List.cons.inj hsecrets).1
    refine ⟨⟨key, hsecrets ▸ hkey, hverifies⟩, fun hnow => ?_⟩
    rw [hsecret] at hnow
    obtain ⟨nonce, hnonce, hmem⟩ := sessionIsRevoked_iff.mp (hrevoked hnow)
    exact sessionIsRevoked_iff.mpr ⟨nonce, hnonce, hgrown hmem⟩
  | rotated hsecrets =>
    have hsecret : s'.secret = rotated := (List.cons.inj hsecrets).1
    refine ⟨⟨key, hsecrets ▸ List.mem_cons_of_mem _ hkey, hverifies⟩, fun hnow => ?_⟩
    -- the token would verify under an old secret and the new one
    rw [hsecret] at hnow
    rcases hfresh with hsame | ⟨hlen, hnew⟩
    · rw [hsecrets] at hsame
      exact absurd (congrArg List.length hsame) (by simp)
    · have heq := hseparates.eq_of_verifies (hkeyed key hkey) hlen hverifies hnow
      exact absurd (heq ▸ hkey) hnew

theorem Keyed.effect {rotated : Secret} {s s' : Sessions} (h : Keyed s)
    (heffect : Effect rotated s s')
    (hfresh : s'.secrets = s.secrets ∨ rotated.length = 32 ∧ rotated ∉ s.secrets) : Keyed s' := by
  intro key hkey
  cases heffect with
  | grown hsecrets _ => exact h key (hsecrets ▸ hkey)
  | rotated hsecrets =>
    rcases hfresh with hsame | ⟨hlen, -⟩
    · exact h key (hsame ▸ hkey)
    · rw [hsecrets] at hkey
      cases hkey with
      | head => exact hlen
      | tail _ hkey => exact h key hkey

theorem Effect.secrets_subset {rotated : Secret} {s s' : Sessions} (h : Effect rotated s s') :
    s.secrets ⊆ s'.secrets := by
  cases h with
  | grown hsecrets _ => rw [hsecrets]; exact fun _ h => h
  | rotated hsecrets => rw [hsecrets]; exact fun _ h => List.mem_cons_of_mem _ h

theorem Seen.effect (hseparates : Separates L) {rotated : Secret} {s s' : Sessions}
    (hkeyed : Keyed s) (heffect : Effect rotated s s')
    (hfresh : s'.secrets = s.secrets ∨ rotated.length = 32 ∧ rotated ∉ s.secrets)
    {t : Phase} (h : Seen L s t) : Seen L s' t := by
  unfold Seen at h ⊢
  split
  · obtain ⟨key, hkey, hverifies⟩ := h
    exact ⟨key, heffect.secrets_subset hkey, hverifies⟩
  · exact Ended.effect hseparates hkeyed heffect hfresh h
  · trivial

/-- A logout that answers `true` has ended the token. -/
theorem ended_endSession (hseparates : Separates L) {rotated : Secret} {s : Sessions}
    (hkeyed : Keyed s) (hfresh : s.Full → rotated.length = 32 ∧ rotated ∉ s.secrets)
    {token : String} (hseen : ∃ key ∈ s.secrets, sessionMacVerifies L key token = true)
    (h : (s.endSession rotated token).2 = true) : Ended L (s.endSession rotated token).1 token := by
  obtain ⟨key, hkey, hverifies⟩ := hseen
  unfold Sessions.endSession at h ⊢
  split
  next hnone =>
    rw [hnone] at h
    cases h
  next nonce hnonce =>
    split
    next hfull =>
      obtain ⟨hlen, hnew⟩ := hfresh hfull
      refine ⟨⟨key, List.mem_cons_of_mem _ hkey, hverifies⟩, fun hnow => ?_⟩
      have heq := hseparates.eq_of_verifies (hkeyed key hkey) hlen hverifies hnow
      exact absurd (heq ▸ hkey) hnew
    next =>
      refine ⟨⟨key, hkey, hverifies⟩, fun _ => ?_⟩
      exact sessionIsRevoked_iff.mpr ⟨nonce, hnonce, List.mem_insert_self⟩

/-- What a call has seen, its next step keeps. -/
theorem seen_advance (hseparates : Separates L) {env : Env} {t : Phase} {s : Sessions}
    (hkeyed : Keyed s)
    (hfresh : s.Full → (∃ token, t = .revoking token) →
      env.rotated.length = 32 ∧ env.rotated ∉ s.secrets)
    (h : Seen L s t) : Seen L (t.advance L env s).1 (t.advance L env s).2 := by
  cases t with
  | called call =>
    cases call with
    | issue waId => trivial
    | isAuthentic token =>
      simp only [Phase.advance]
      split
      · trivial
      · trivial
    | revoke token =>
      simp only [Phase.advance]
      split
      next hverifies => exact ⟨s.secret, List.mem_cons_self, hverifies⟩
      next => trivial
  | checking token => trivial
  | revoking token =>
    simp only [Phase.advance]
    cases hanswer : (s.endSession env.rotated token).2 with
    | false => trivial
    | true => exact ended_endSession hseparates hkeyed (fun hf => hfresh hf ⟨token, rfl⟩) h hanswer
  | told answer => exact h

/-! ## Runs -/

/-- What holds of every process up to the logout. -/
def Sound (L : Lib) (c : Config Sessions Phase) : Prop :=
  Keyed c.shared ∧ ∀ t ∈ c.tasks, Seen L c.shared t

variable {c : Config Sessions Phase} {m : Move Call Env}

theorem FreshSecret.of_advance {i : Nat} {env : Env} {t : Phase}
    (h : FreshSecret c (.advance i env)) (ht : c.tasks[i]? = some t) (hfull : c.shared.Full)
    (hrevoking : ∃ token, t = .revoking token) :
    env.rotated.length = 32 ∧ env.rotated ∉ c.shared.secrets := by
  obtain ⟨token, rfl⟩ := hrevoking
  exact h i env rfl ⟨i, env, token, rfl, ht, hfull⟩

/-- The secrets stay, or a fresh one is drawn. -/
theorem FreshSecret.secrets {i : Nat} {env : Env} {t : Phase}
    (h : FreshSecret c (.advance i env)) (ht : c.tasks[i]? = some t) :
    (t.advance L env c.shared).1.secrets = c.shared.secrets ∨
      env.rotated.length = 32 ∧ env.rotated ∉ c.shared.secrets :=
  (advance_effect L env t c.shared).2.imp id fun hf => h.of_advance ht hf.1 hf.2

/-- **Step lemma.** -/
theorem sound_step (hseparates : Separates L) (hfresh : FreshSecret c m) (h : Sound L c) :
    Sound L ((sessionServer L).step c m) := by
  refine (sessionServer L).step_preserves h.1 h.2 ?_ ?_
  · intro call _
    exact ⟨h.1, trivial, h.2⟩
  · intro i env t hm ht
    subst hm
    have heffect := (advance_effect L env t c.shared).1
    have hsecrets := hfresh.secrets (L := L) ht
    refine ⟨h.1.effect heffect hsecrets, ?_, ?_⟩
    · exact seen_advance hseparates h.1 (fun hfull hr => hfresh.of_advance ht hfull hr)
        (h.2 t (List.mem_of_getElem? ht))
    · intro u hu
      exact (h.2 u hu).effect hseparates h.1 heffect hsecrets

/-- No rotation while a check of the token, which started at the `n`-th call or later, is between
    its two reads. -/
def Undisturbed (n : Nat) (token : String) (c : Config Sessions Phase) (m : Move Call Env) : Prop :=
  Rotates c m → ∀ i, n ≤ i → c.tasks[i]? ≠ some (.checking token)

/-- No late check of the token finds its nonce missing, and none has let it through. -/
def Refused (n : Nat) (token : String) (c : Config Sessions Phase) : Prop :=
  ∀ i, n ≤ i →
    (c.tasks[i]? = some (.checking token) → sessionIsRevoked c.shared.revoked token = true) ∧
    c.tasks[i]? ≠ some (.told (.authentic token true))

/-- The first read: the mac verified. -/
theorem advance_checking {env : Env} {t : Phase} {s : Sessions} {token : String}
    (h : (t.advance L env s).2 = .checking token) :
    sessionMacVerifies L s.secret token = true ∧ (t.advance L env s).1 = s := by
  cases t with
  | called call =>
    cases call with
    | issue waId => cases h
    | isAuthentic token' =>
      simp only [Phase.advance] at h ⊢
      split at h
      next hverifies =>
        cases h
        exact ⟨hverifies, by rw [if_pos hverifies]⟩
      next => cases h
    | revoke token' =>
      simp only [Phase.advance] at h
      split at h
      · cases h
      · cases h
  | checking token' => cases h
  | revoking token' => cases h
  | told answer => cases h

/-- The second read: the nonce is not in the set. -/
theorem advance_authentic {env : Env} {t : Phase} {s : Sessions} {token : String}
    (h : (t.advance L env s).2 = .told (.authentic token true)) :
    t = .checking token ∧ sessionIsRevoked s.revoked token = false ∨
      t = .told (.authentic token true) := by
  cases t with
  | called call =>
    cases call with
    | issue waId => cases h
    | isAuthentic token' =>
      simp only [Phase.advance] at h
      split at h
      · cases h
      · cases h
    | revoke token' =>
      simp only [Phase.advance] at h
      split at h
      · cases h
      · cases h
  | checking token' =>
    simp only [Phase.advance, Phase.told.injEq, Answer.authentic.injEq, Bool.not_eq_true'] at h
    obtain ⟨rfl, hrevoked⟩ := h
    exact Or.inl ⟨rfl, hrevoked⟩
  | revoking token' => cases h
  | told answer => exact Or.inr h

/-- A revoked nonce stays in the set unless the secret is rotated. -/
theorem revoked_advance {i : Nat} {env : Env} {t : Phase} {token : String}
    (ht : c.tasks[i]? = some t) (hrotates : ¬ Rotates c (.advance i env))
    (h : sessionIsRevoked c.shared.revoked token = true) :
    sessionIsRevoked (t.advance L env c.shared).1.revoked token = true := by
  obtain ⟨heffect, hsecrets⟩ := advance_effect L env t c.shared
  cases heffect with
  | grown _ hgrown =>
    obtain ⟨nonce, hnonce, hmem⟩ := sessionIsRevoked_iff.mp h
    exact sessionIsRevoked_iff.mpr ⟨nonce, hnonce, hgrown hmem⟩
  | rotated hrotated =>
    rcases hsecrets with hsame | ⟨hfull, t', rfl⟩
    · rw [hrotated] at hsame
      exact absurd (congrArg List.length hsame) (by simp)
    · exact absurd ⟨i, env, t', rfl, ht, hfull⟩ hrotates

/-- **Step lemma.** -/
theorem refused_step {n : Nat} {token : String} (hended : Ended L c.shared token)
    (hundisturbed : Undisturbed n token c m) (h : Refused n token c) :
    Refused n token ((sessionServer L).step c m) := by
  intro i hi
  cases m with
  | arrive call =>
    rw [System.step_arrive]
    rcases Nat.lt_trichotomy i c.tasks.length with hlt | rfl | hgt
    · show (_ → sessionIsRevoked c.shared.revoked token = true) ∧ _
      rw [List.getElem?_append_left hlt]
      exact h i hi
    · simp [sessionServer]
    · have hnone : (c.tasks ++ [((sessionServer L).spawn call c.shared).2])[i]? = none :=
        List.getElem?_eq_none (by rw [List.length_append, List.length_singleton]; omega)
      simp [hnone]
  | advance j env =>
    cases ht : c.tasks[j]? with
    | none =>
      rw [System.step_advance_none _ _ ht]
      exact h i hi
    | some t =>
      rw [System.step_advance_some _ _ ht]
      show ((c.tasks.set j (t.advance L env c.shared).2)[i]? = some (.checking token) →
          sessionIsRevoked (t.advance L env c.shared).1.revoked token = true) ∧
        (c.tasks.set j (t.advance L env c.shared).2)[i]? ≠ some (.told (.authentic token true))
      by_cases hij : j = i
      · -- the check's own step
        subst hij
        rw [List.getElem?_set_self (List.getElem?_eq_some_iff.mp ht).1, Option.some.injEq, ne_eq,
          Option.some.injEq]
        constructor
        · intro hchecking
          obtain ⟨hverifies, hshared⟩ := advance_checking hchecking
          rw [hshared]
          exact hended.2 hverifies
        · intro hauthentic
          rcases advance_authentic hauthentic with ⟨rfl, hmissing⟩ | rfl
          · have hfound := (h j hi).1 ht
            rw [hmissing] at hfound
            cases hfound
          · exact (h j hi).2 ht
      · rw [List.getElem?_set_ne hij]
        refine ⟨fun hchecking => ?_, (h i hi).2⟩
        exact revoked_advance ht (fun hr => hundisturbed hr i hi hchecking) ((h i hi).1 hchecking)

/-- **Run.** Once a logout has answered `true`, no check that starts later lets the token through,
    if no rotation of the secret falls between its two reads. -/
theorem logout_permanent (L : Lib) (hseparates : Separates L) (secret : Secret)
    (hlen : secret.length = 32) (moves later : List (Move Call Env)) (token : String)
    (hfresh : Guarded (sessionServer L).step FreshSecret (start secret) (moves ++ later))
    (hlogout : .told (.revoked token true) ∈
      (after (sessionServer L).step (start secret) moves).tasks)
    (hundisturbed : Guarded (sessionServer L).step
      (Undisturbed (after (sessionServer L).step (start secret) moves).tasks.length token)
      (after (sessionServer L).step (start secret) moves) later) :
    ∀ i, (after (sessionServer L).step (start secret) moves).tasks.length ≤ i →
      (after (sessionServer L).step (start secret) (moves ++ later)).tasks[i]? ≠
        some (.told (.authentic token true)) := by
  obtain ⟨hfresh₁, hfresh₂⟩ := guarded_append_iff.mp hfresh
  have hstart : Sound L (start secret) := by
    refine ⟨fun key hkey => ?_, fun _ h => by cases h⟩
    rw [List.mem_singleton.mp hkey]
    exact hlen
  have hsound := Guarded.invariant (I := Sound L)
    (fun _ _ h hm => sound_step hseparates hm h) hfresh₁ hstart
  rw [after_append]
  generalize after (sessionServer L).step (start secret) moves = c at *
  have hlast : Sound L (after (sessionServer L).step c later) ∧
      .told (.revoked token true) ∈ (after (sessionServer L).step c later).tasks ∧
      Refused c.tasks.length token (after (sessionServer L).step c later) := by
    refine Guarded.invariant
      (I := fun c' => Sound L c' ∧ .told (.revoked token true) ∈ c'.tasks ∧
        Refused c.tasks.length token c') ?_ (hfresh₂.and hundisturbed) ⟨hsound, hlogout, ?_⟩
    · intro c' m hinv hguard
      obtain ⟨hsound, htold, hrefused⟩ := hinv
      exact ⟨sound_step hseparates hguard.1 hsound, told_step htold,
        refused_step (hsound.2 _ htold) hguard.2 hrefused⟩
    · intro i hi
      simp [List.getElem?_eq_none hi]
  exact fun i hi => (hlast.2.2 i hi).2

/-! ## One session -/

/-- One session, from its login to the answer to its logout, as the calls `k` and `k + 1`. -/
def session (L : Lib) (secret : Secret) (k : Nat) (waId : String) (raw : List UInt8) :
    List (Move Call Env) :=
  [.arrive (.issue waId), .advance k ⟨raw, []⟩,
    .arrive (.revoke (issueSessionToken L secret waId raw)), .advance (k + 1) ⟨[], []⟩,
    .advance (k + 1) ⟨[], []⟩]

/-- A session adds its nonce to the set, if the set is not full. -/
theorem after_session (hurl : UrlSafe L) {waId : String} {raw : List UInt8}
    (hfull : ¬ c.shared.Full) (hraw : L.base64Url raw ∉ c.shared.revoked) :
    after (sessionServer L).step c (session L c.shared.secret c.tasks.length waId raw) =
      ⟨{ c.shared with
          revoked := L.base64Url raw :: c.shared.revoked
          minted := ⟨c.shared.secret, waId, L.base64Url raw⟩ :: c.shared.minted },
        c.tasks ++ [.told (.issued (issueSessionToken L c.shared.secret waId raw)),
          .told (.revoked (issueSessionToken L c.shared.secret waId raw) true)]⟩ := by
  obtain ⟨s, ts⟩ := c
  have hlt : ¬ revokedSessionCap ≤ s.revoked.length := hfull
  have hnew : L.base64Url raw ∉ s.revoked := hraw
  simp only [session, after_cons, after_nil, System.step, sessionServer]
  simp [Phase.advance, hurl.verifies, Sessions.endSession, hurl.sessionNonce, hlt, hnew]

theorem freshSecret_of_not_full (h : ¬ c.shared.Full) : FreshSecret c m := by
  intro i env hm hrotates
  obtain ⟨_, _, _, _, _, hfull⟩ := hrotates
  exact absurd hfull h

theorem undisturbed_of_not_full {n : Nat} {token : String} (h : ¬ c.shared.Full) :
    Undisturbed n token c m := by
  intro hrotates
  obtain ⟨_, _, _, _, _, hfull⟩ := hrotates
  exact absurd hfull h

theorem freshSecret_arrive {call : Call} : FreshSecret c (.arrive call) := by
  intro i env hm
  cases hm

theorem freshSecret_of_task {i : Nat} {env : Env} {t : Phase} (ht : c.tasks[i]? = some t)
    (h : ∀ token, t ≠ .revoking token) : FreshSecret c (.advance i env) := by
  intro j env' hm hrotates
  obtain ⟨k, env'', token, hk, hget, -⟩ := hrotates
  cases hk
  rw [ht, Option.some.injEq] at hget
  exact absurd hget (h token)

/-- A session whose set is not full rotates nothing. -/
theorem guarded_session (hurl : UrlSafe L) {waId : String} {raw : List UInt8}
    (hfull : ¬ c.shared.Full) :
    Guarded (sessionServer L).step FreshSecret c
      (session L c.shared.secret c.tasks.length waId raw) := by
  obtain ⟨s, ts⟩ := c
  have hlt : ¬ revokedSessionCap ≤ s.revoked.length := hfull
  refine ⟨freshSecret_of_not_full hfull, ?_, ?_, ?_, ?_, trivial⟩
  all_goals
    apply freshSecret_of_not_full
    simpa [System.step, sessionServer, Phase.advance, hurl.verifies, Sessions.Full] using hlt

/-- A check, uninterrupted, as the call `k`. -/
def check (k : Nat) (token : String) : List (Move Call Env) :=
  [.arrive (.isAuthentic token), .advance k ⟨[], []⟩, .advance k ⟨[], []⟩]

/-- A check leaves room in the set. -/
theorem guarded_check {ok : Config Sessions Phase → Move Call Env → Prop}
    (hok : ∀ c m, ¬ c.shared.Full → ok c m) (hfull : ¬ c.shared.Full) {token : String}
    (hverifies : sessionMacVerifies L c.shared.secret token = true) :
    Guarded (sessionServer L).step ok c (check c.tasks.length token) := by
  obtain ⟨s, ts⟩ := c
  have hlt : ¬ revokedSessionCap ≤ s.revoked.length := hfull
  have hverifies' : sessionMacVerifies L s.secret token = true := hverifies
  refine ⟨hok _ _ hfull, hok _ _ ?_, hok _ _ ?_, trivial⟩
  · simpa [System.step, sessionServer, Sessions.Full] using hlt
  · simpa [System.step, sessionServer, Phase.advance, hverifies', Sessions.Full] using hlt

namespace Fixture

/-- The state after one session. -/
def loggedOut : Config Sessions Phase :=
  ⟨⟨secret, [lib.base64Url raw], [], [⟨secret, "wa:b.c", lib.base64Url raw⟩]⟩,
    [.told (.issued token), .told (.revoked token true)]⟩

theorem not_full_start : ¬ (start secret).shared.Full := by
  show ¬ 4096 ≤ 0
  omega

theorem not_full_loggedOut : ¬ loggedOut.shared.Full := by
  show ¬ 4096 ≤ 1
  omega

theorem after_oneSession :
    after (sessionServer lib).step (start secret) (session lib secret 0 "wa:b.c" raw) =
      loggedOut := by
  rw [loggedOut, ← issue_eq]
  exact after_session urlSafe not_full_start List.not_mem_nil

theorem verifies_token : sessionMacVerifies lib secret token = true := by
  rw [← issue_eq]
  exact urlSafe.verifies secret "wa:b.c" raw

end Fixture

theorem logout_permanent_once :
    (after (sessionServer Fixture.lib).step (start Fixture.secret)
      (session Fixture.lib Fixture.secret 0 "wa:b.c" Fixture.raw ++
        check 2 Fixture.token)).tasks[2]? ≠ some (.told (.authentic Fixture.token true)) := by
  have hsession : Guarded (sessionServer Fixture.lib).step FreshSecret (start Fixture.secret)
      (session Fixture.lib Fixture.secret 0 "wa:b.c" Fixture.raw) :=
    guarded_session Fixture.urlSafe Fixture.not_full_start
  have hcheck {ok : Config Sessions Phase → Move Call Env → Prop}
      (hok : ∀ c m, ¬ c.shared.Full → ok c m) :
      Guarded (sessionServer Fixture.lib).step ok Fixture.loggedOut (check 2 Fixture.token) :=
    guarded_check hok Fixture.not_full_loggedOut Fixture.verifies_token
  rw [← Fixture.after_oneSession] at hcheck
  refine logout_permanent Fixture.lib Fixture.separates Fixture.secret Fixture.length_secret _ _
    Fixture.token (guarded_append_iff.mpr ⟨hsession, hcheck fun _ _ h => freshSecret_of_not_full h⟩)
    ?_ ?_ 2 ?_
  · rw [Fixture.after_oneSession]
    exact List.mem_cons_of_mem _ List.mem_cons_self
  · rw [Fixture.after_oneSession] at hcheck ⊢
    exact hcheck fun _ _ h => undisturbed_of_not_full h
  · rw [Fixture.after_oneSession]
    exact Nat.le_refl 2

/-! ## A rotation between two reads -/

/-- `n` sessions, one after the other. -/
def sessions (L : Lib) (secret : Secret) (waId : String) (raw : Nat → List UInt8) :
    Nat → List (Move Call Env)
  | 0 => []
  | n + 1 => sessions L secret waId raw n ++ session L secret (2 * n) waId (raw n)

/-- What `n` sessions leave behind. -/
structure Flooded (L : Lib) (secret : Secret) (waId : String) (raw : Nat → List UInt8) (n : Nat)
    (c : Config Sessions Phase) : Prop where
  current : c.shared.secret = secret
  past : c.shared.past = []
  revoked : c.shared.revoked.length = n
  nonces : ∀ nonce, nonce ∈ c.shared.revoked ↔ ∃ i < n, nonce = L.base64Url (raw i)
  tasks : c.tasks.length = 2 * n
  told : ∀ i < n, .told (.revoked (issueSessionToken L secret waId (raw i)) true) ∈ c.tasks

/-- **Step lemma.** -/
theorem Flooded.session (hurl : UrlSafe L) {secret : Secret} {waId : String}
    {raw : Nat → List UInt8} {n : Nat} (hn : n < revokedSessionCap)
    (hnew : ∀ i < n, L.base64Url (raw n) ≠ L.base64Url (raw i)) (h : Flooded L secret waId raw n c) :
    Flooded L secret waId raw (n + 1)
        (after (sessionServer L).step c (session L secret (2 * n) waId (raw n))) ∧
      Guarded (sessionServer L).step FreshSecret c (session L secret (2 * n) waId (raw n)) := by
  have hfull : ¬ c.shared.Full := by
    rw [Sessions.Full, h.revoked]
    omega
  have hmissing : L.base64Url (raw n) ∉ c.shared.revoked := by
    rw [h.nonces]
    intro h
    obtain ⟨i, hi, heq⟩ := h
    exact hnew i hi heq
  rw [← h.tasks, ← h.current]
  refine ⟨?_, guarded_session hurl hfull⟩
  rw [after_session hurl hfull hmissing]
  constructor
  · rfl
  · exact h.past
  · simp [h.revoked]
  · intro nonce
    simp only [List.mem_cons, h.nonces, Nat.lt_succ_iff_lt_or_eq, or_and_right, exists_or,
      exists_eq_left]
    exact Or.comm
  · simp [h.tasks]
    omega
  · intro i hi
    rcases Nat.lt_succ_iff_lt_or_eq.mp hi with hi | rfl
    · exact List.mem_append_left _ (h.current ▸ h.told i hi)
    · simp

/-- As many sessions as the set has room for leave their nonces in it. -/
theorem flooded_sessions (hurl : UrlSafe L) {secret : Secret} {waId : String}
    {raw : Nat → List UInt8} {n : Nat} (hn : n ≤ revokedSessionCap)
    (hraw : ∀ i < n, ∀ j < i, L.base64Url (raw i) ≠ L.base64Url (raw j)) :
    Flooded L secret waId raw n
        (after (sessionServer L).step (start secret) (sessions L secret waId raw n)) ∧
      Guarded (sessionServer L).step FreshSecret (start secret)
        (sessions L secret waId raw n) := by
  induction n with
  | zero =>
    refine ⟨⟨rfl, rfl, rfl, fun nonce => ?_, rfl, fun i hi => by omega⟩, trivial⟩
    simp [sessions, start, Sessions.new]
  | succ n ih =>
    obtain ⟨h, hguarded⟩ := ih (by omega) fun i hi => hraw i (by omega)
    obtain ⟨hnext, hsession⟩ := h.session hurl (by omega) (hraw n (by omega))
    rw [sessions, after_append, guarded_append_iff]
    exact ⟨hnext, hguarded, hsession⟩

/-- A check of `token` reads the secret, a logout of `other` rotates it, the check reads the
    set. -/
def straddled (n : Nat) (token other : String) (rotated : Secret) : List (Move Call Env) :=
  [.arrive (.isAuthentic token), .advance n ⟨[], []⟩,
    .arrive (.revoke other), .advance (n + 1) ⟨[], []⟩, .advance (n + 1) ⟨[], rotated⟩,
    .advance n ⟨[], []⟩]

/-- In a process whose set is full, the check lets a revoked token through. -/
theorem after_straddled {token other : String} {rotated : Secret} (hfull : c.shared.Full)
    (hlen : rotated.length = 32) (hrotated : rotated ∉ c.shared.secrets)
    (htoken : sessionMacVerifies L c.shared.secret token = true)
    (hother : sessionMacVerifies L c.shared.secret other = true) :
    (after (sessionServer L).step c
        (straddled c.tasks.length token other rotated)).tasks[c.tasks.length]? =
      some (.told (.authentic token true)) ∧
    Guarded (sessionServer L).step FreshSecret c
      (straddled c.tasks.length token other rotated) := by
  obtain ⟨s, ts⟩ := c
  obtain ⟨nonce, hnonce⟩ := sessionNonce_of_verifies hother
  have hle : revokedSessionCap ≤ s.revoked.length := hfull
  have hother' : sessionMacVerifies L s.secret other = true := hother
  have htoken' : sessionMacVerifies L s.secret token = true := htoken
  constructor
  · have hempty : sessionIsRevoked [] token = false := by
      rw [← Bool.not_eq_true, sessionIsRevoked_iff]
      simp
    simp only [straddled, after_cons, after_nil, System.step, sessionServer]
    simp [Phase.advance, htoken', hother', Sessions.endSession, hnonce, hle, hempty]
  · -- the logout's region is the one step that draws a secret
    refine ⟨freshSecret_arrive, ?_, freshSecret_arrive, ?_, ?_, ?_, trivial⟩
    · apply freshSecret_of_task (t := .called (.isAuthentic token)) _ (by simp)
      simp [System.step, sessionServer]
    · apply freshSecret_of_task (t := .called (.revoke other)) _ (by simp)
      simp [System.step, sessionServer, Phase.advance, htoken']
    · intro i env hm _
      cases hm
      refine ⟨hlen, ?_⟩
      simpa [System.step, sessionServer, Phase.advance, htoken', hother', Sessions.secrets]
        using hrotated
    · apply freshSecret_of_not_full
      have hroom : revokedSessionCap ≠ 0 := by decide
      simpa [System.step, sessionServer, Phase.advance, htoken', hother', Sessions.endSession,
        hnonce, hle, Sessions.Full] using hroom

/-- A process that filled its set lets its first token through. -/
theorem Flooded.straddled (hurl : UrlSafe L) {secret rotated : Secret} {waId : String}
    {raw : Nat → List UInt8} {moves : List (Move Call Env)}
    (h : Flooded L secret waId raw revokedSessionCap
      (after (sessionServer L).step (start secret) moves))
    (hguarded : Guarded (sessionServer L).step FreshSecret (start secret) moves)
    (hlen : rotated.length = 32) (hrotated : rotated ≠ secret) :
    let c := after (sessionServer L).step (start secret) moves
    let token := issueSessionToken L secret waId (raw 0)
    let later := straddled c.tasks.length token (issueSessionToken L secret waId (raw 1)) rotated
    Guarded (sessionServer L).step FreshSecret (start secret) (moves ++ later) ∧
      .told (.revoked token true) ∈ c.tasks ∧
      ∃ i, c.tasks.length ≤ i ∧
        (after (sessionServer L).step (start secret) (moves ++ later)).tasks[i]? =
          some (.told (.authentic token true)) := by
  intro c token later
  have hverifies (i : Nat) :
      sessionMacVerifies L c.shared.secret (issueSessionToken L secret waId (raw i)) = true := by
    rw [h.current]
    exact hurl.verifies secret waId (raw i)
  have hnew : rotated ∉ c.shared.secrets := by
    rw [Sessions.secrets, h.current, h.past, List.mem_singleton]
    exact hrotated
  obtain ⟨hanswer, hlater⟩ := after_straddled (c := c) (Nat.le_of_eq h.revoked.symm) hlen hnew
    (hverifies 0) (hverifies 1)
  refine ⟨guarded_append_iff.mpr ⟨hguarded, hlater⟩, h.told 0 (by decide), c.tasks.length,
    Nat.le_refl _, ?_⟩
  rw [after_append]
  exact hanswer

namespace Fixture

/-- The random bytes of session `i`. -/
def rawOf (i : Nat) : List UInt8 :=
  List.replicate 22 0 ++ [UInt8.ofNat (i / 256), UInt8.ofNat (i % 256)]

theorem nonce_inj {i j : Nat} (hi : i < 65536) (hj : j < 65536)
    (h : lib.base64Url (rawOf i) = lib.base64Url (rawOf j)) : i = j := by
  have hraw : rawOf i = rawOf j := base64UrlDigits_inj rfl (String.ofList_injective h)
  simp only [rawOf, List.append_cancel_left_eq, List.cons.injEq, and_true] at hraw
  have hhigh := congrArg UInt8.toNat hraw.1
  have hlow := congrArg UInt8.toNat hraw.2
  rw [UInt8.toNat_ofNat_of_lt' (show i / 256 < 256 by omega),
    UInt8.toNat_ofNat_of_lt' (show j / 256 < 256 by omega)] at hhigh
  rw [UInt8.toNat_ofNat_of_lt' (show i % 256 < 256 by omega),
    UInt8.toNat_ofNat_of_lt' (show j % 256 < 256 by omega)] at hlow
  omega

/-- The process fills its set, the first token's session being the first to end. -/
@[irreducible] def filling : List (Move Call Env) := sessions lib secret "wa:b.c" rawOf revokedSessionCap

theorem flooded_filling :
    Flooded lib secret "wa:b.c" rawOf revokedSessionCap
        (after (sessionServer lib).step (start secret) filling) ∧
      Guarded (sessionServer lib).step FreshSecret (start secret) filling := by
  unfold filling
  refine flooded_sessions urlSafe (Nat.le_refl _) fun i hi j hj heq => ?_
  have hcap : revokedSessionCap = 4096 := rfl
  have hsame := nonce_inj (by omega) (by omega) heq
  omega

/-- The first token is checked while the second is logged out again. -/
def rechecking : List (Move Call Env) :=
  straddled (after (sessionServer lib).step (start secret) filling).tasks.length
    (issueSessionToken lib secret "wa:b.c" (rawOf 0))
    (issueSessionToken lib secret "wa:b.c" (rawOf 1)) (List.replicate 32 7)

end Fixture

/-- The check of a token whose logout was answered lets it through. -/
theorem rotation_resurrects :
    let c := after (sessionServer Fixture.lib).step (start Fixture.secret) Fixture.filling
    let token := issueSessionToken Fixture.lib Fixture.secret "wa:b.c" (Fixture.rawOf 0)
    Separates Fixture.lib ∧ UrlSafe Fixture.lib ∧ Fixture.secret.length = 32 ∧
      Guarded (sessionServer Fixture.lib).step FreshSecret (start Fixture.secret)
        (Fixture.filling ++ Fixture.rechecking) ∧
      .told (.revoked token true) ∈ c.tasks ∧
      ∃ i, c.tasks.length ≤ i ∧
        (after (sessionServer Fixture.lib).step (start Fixture.secret)
          (Fixture.filling ++ Fixture.rechecking)).tasks[i]? =
            some (.told (.authentic token true)) := by
  have hne : List.replicate 32 7 ≠ Fixture.secret := by decide
  have hbroken := Fixture.flooded_filling.1.straddled Fixture.urlSafe Fixture.flooded_filling.2
    List.length_replicate hne
  exact ⟨Fixture.separates, Fixture.urlSafe, Fixture.length_secret, hbroken⟩

end CirisServer.SessionToken
