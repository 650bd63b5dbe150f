import CirisServer.ForStd.Run
import CirisServer.Native.Session

/-!
# What a session token says

A token is cut at its last `:` and then at the first `.`, and the mac is taken over the wa_id
and the nonce with `0x1f` between them. No nonce has any of the three separators in it, so what
is minted is read back, and what is accepted was minted: a wa_id may have them all.

Key results:
- `sessionMacVerifies_iff`: what the mac check accepts
- `macMessage_inj`: the mac's message says the wa_id and the nonce
- `token_exact`: every process
-/

namespace CirisServer.SessionToken

open Interleave Run

/-! ## The text -/

theorem claimed_eq_some_iff {token waId rest : String} :
    claimed token = some (waId, rest) ↔
      token = "sess:" ++ waId ++ ":" ++ rest ∧ ':' ∉ rest.toList := by
  simp only [claimed, Option.map_eq_some_iff, Option.bind_eq_some_iff, Prod.exists, Prod.mk.injEq,
    List.stripPrefix?_eq_some_iff, List.rsplitOnce_eq_some_iff]
  constructor
  · rintro ⟨a, b, ⟨ys, htoken, rfl, hb⟩, rfl, rfl⟩
    refine ⟨?_, by simpa using hb⟩
    rw [← String.toList_inj, htoken]
    simp
  · rintro ⟨rfl, hrest⟩
    refine ⟨waId.toList, rest.toList, ⟨waId.toList ++ ':' :: rest.toList, ?_, rfl, hrest⟩, ?_, ?_⟩
    · simp
    · simp
    · simp

theorem splitSecret_eq_some_iff {rest nonce mac : String} :
    splitSecret rest = some (nonce, mac) ↔ rest = nonce ++ "." ++ mac ∧ '.' ∉ nonce.toList := by
  simp only [splitSecret, Option.map_eq_some_iff, Prod.exists, Prod.mk.injEq,
    List.splitOnce_eq_some_iff]
  constructor
  · rintro ⟨a, b, ⟨hrest, ha⟩, rfl, rfl⟩
    refine ⟨?_, by simpa using ha⟩
    rw [← String.toList_inj, hrest]
    simp
  · rintro ⟨rfl, hnonce⟩
    exact ⟨nonce.toList, mac.toList, ⟨by simp, hnonce⟩, by simp, by simp⟩

/-- The nonce and the mac can be told apart, and told from the wa_id. -/
def Parts (nonce mac : String) : Prop :=
  '.' ∉ nonce.toList ∧ ':' ∉ nonce.toList ∧ ':' ∉ mac.toList

theorem claimed_spell {waId nonce mac : String} (h : Parts nonce mac) :
    claimed (spell waId nonce mac) = some (waId, nonce ++ "." ++ mac) := by
  rw [claimed_eq_some_iff]
  refine ⟨?_, ?_⟩
  · simp only [spell, String.append_assoc]
  · simp [h.2.1, h.2.2]

theorem splitSecret_join {nonce mac : String} (h : '.' ∉ nonce.toList) :
    splitSecret (nonce ++ "." ++ mac) = some (nonce, mac) :=
  splitSecret_eq_some_iff.mpr ⟨rfl, h⟩

/-- A token has one reading. -/
theorem spell_inj {waId waId' nonce nonce' mac mac' : String} (hp : Parts nonce mac)
    (hp' : Parts nonce' mac') (h : spell waId nonce mac = spell waId' nonce' mac') :
    waId = waId' ∧ nonce = nonce' ∧ mac = mac' := by
  have hclaimed : claimed (spell waId nonce mac) = some (waId, nonce ++ "." ++ mac) :=
    claimed_spell hp
  rw [h, claimed_spell hp', Option.some.injEq, Prod.mk.injEq] at hclaimed
  have hsplit : splitSecret (nonce ++ "." ++ mac) = some (nonce, mac) := splitSecret_join hp.1
  rw [← hclaimed.2, splitSecret_join hp'.1, Option.some.injEq, Prod.mk.injEq] at hsplit
  exact ⟨hclaimed.1.symm, hsplit.1.symm, hsplit.2.symm⟩

/-- What the mac check accepts: a text that is cut into a wa_id, a nonce and their mac. -/
theorem sessionMacVerifies_iff {L : Lib} {secret : Secret} {token : String} :
    sessionMacVerifies L secret token = true ↔
      ∃ waId nonce, token = spell waId nonce (sessionMac L secret waId nonce) ∧
        Parts nonce (sessionMac L secret waId nonce) := by
  constructor
  · intro h
    unfold sessionMacVerifies at h
    split at h
    · cases h
    next waId rest hclaimed =>
      split at h
      · cases h
      next nonce mac hsplit =>
        rw [beq_iff_eq] at h
        obtain ⟨rfl, hcolon⟩ := claimed_eq_some_iff.mp hclaimed
        obtain ⟨rfl, hdot⟩ := splitSecret_eq_some_iff.mp hsplit
        rw [← h] at hcolon ⊢
        simp only [String.toList_append, List.mem_append, not_or] at hcolon
        exact ⟨waId, nonce, by simp only [spell, String.append_assoc],
          hdot, hcolon.1.1, hcolon.2⟩
  · rintro ⟨waId, nonce, rfl, hparts⟩
    simp only [sessionMacVerifies, claimed_spell hparts, splitSecret_join hparts.1,
      beq_self_eq_true]

theorem sessionNonce_spell {waId nonce mac : String} (h : Parts nonce mac) :
    sessionNonce (spell waId nonce mac) = some nonce := by
  simp [sessionNonce, claimed_spell h, splitSecret_join h.1]

theorem waIdFromTokenUnverified_spell {waId nonce mac : String} (h : Parts nonce mac) :
    waIdFromTokenUnverified (spell waId nonce mac) = some waId := by
  simp [waIdFromTokenUnverified, claimed_spell h]

/-! ## The mac's message -/

/-- The message says the wa_id and the nonce, whatever bytes the wa_id has. -/
theorem macMessage_inj {waId waId' nonce nonce' : String} (hn : (0x1f : UInt8) ∉ utf8 nonce)
    (hn' : (0x1f : UInt8) ∉ utf8 nonce') (h : macMessage waId nonce = macMessage waId' nonce') :
    waId = waId' ∧ nonce = nonce' := by
  -- both are cut at the last `0x1f`
  have hcut : List.rsplitOnce 0x1f (macMessage waId nonce) = some (utf8 waId, utf8 nonce) :=
    List.rsplitOnce_eq_some_iff.mpr ⟨rfl, hn⟩
  have hcut' : List.rsplitOnce 0x1f (macMessage waId' nonce') = some (utf8 waId', utf8 nonce') :=
    List.rsplitOnce_eq_some_iff.mpr ⟨rfl, hn'⟩
  have hsame : some (utf8 waId, utf8 nonce) = some (utf8 waId', utf8 nonce') := by
    rw [← hcut, ← hcut', h]
  rw [Option.some.injEq, Prod.mk.injEq] at hsame
  exact ⟨utf8_injective hsame.1, utf8_injective hsame.2⟩

/-! ## What is outside -/

/-- `URL_SAFE_NO_PAD` writes letters, digits, `-` and `_`. -/
def UrlSafe (L : Lib) : Prop :=
  ∀ bytes, ∀ c ∈ (L.base64Url bytes).toList, c.isAlphanum = true ∨ c = '-' ∨ c = '_'

theorem UrlSafe.parts {L : Lib} (h : UrlSafe L) (a b : List UInt8) :
    Parts (L.base64Url a) (L.base64Url b) := by
  refine ⟨?_, ?_, ?_⟩
  · intro hc
    rcases h a _ hc with hc | hc | hc <;> revert hc <;> decide
  · intro hc
    rcases h a _ hc with hc | hc | hc <;> revert hc <;> decide
  · intro hc
    rcases h b _ hc with hc | hc | hc <;> revert hc <;> decide

/-- A character that `HeaderValue::to_str` lets through. -/
def HeaderChar (c : Char) : Prop := (32 ≤ c.toNat ∧ c.toNat < 127) ∨ c = '\t'

/-- A text whose characters are none below 32 but tabs has no byte `0x1f`. -/
theorem not_mem_utf8_of_header {s : String} (h : ∀ c ∈ s.toList, HeaderChar c) :
    (0x1f : UInt8) ∉ utf8 s := by
  intro hmem
  obtain ⟨c, hc, hcode⟩ := exists_char_of_mem_utf8 (by decide) hmem
  have h31 : c.toNat = 31 := hcode
  rcases h c hc with ⟨hlow, -⟩ | rfl
  · omega
  · exact absurd h31 (by decide)

theorem headerChar_of_urlSafe {c : Char} (h : c.isAlphanum = true ∨ c = '-' ∨ c = '_') :
    HeaderChar c := by
  left
  rcases h with h | rfl | rfl
  · -- letters and digits lie between `0` and `z`
    have hranges : (decide (65 ≤ c.toNat ∧ c.toNat ≤ 90) ||
        (decide (97 ≤ c.toNat) && decide (c.toNat ≤ 122)) ||
        (decide (48 ≤ c.toNat) && decide (c.toNat ≤ 57))) = true := h
    simp only [Bool.or_eq_true, Bool.and_eq_true, decide_eq_true_eq] at hranges
    omega
  · decide
  · decide

/-- The nonce of a mint has no `0x1f`. -/
theorem UrlSafe.not_mem_utf8 {L : Lib} (h : UrlSafe L) (raw : List UInt8) :
    (0x1f : UInt8) ∉ utf8 (L.base64Url raw) :=
  not_mem_utf8_of_header fun c hc => headerChar_of_urlSafe (h raw c hc)

/-! ## One check -/

theorem sessionTokenIsAuthentic_iff {L : Lib} {s : Sessions} {token : String} :
    sessionTokenIsAuthentic L s token = true ↔
      sessionMacVerifies L s.secret token = true ∧ sessionIsRevoked s.revoked token = false := by
  simp [sessionTokenIsAuthentic]

/-- Whose token it is, is asked behind the check only. -/
theorem waIdFromToken_eq_some_iff {L : Lib} {s : Sessions} {token waId : String} :
    waIdFromToken L s token = some waId ↔
      sessionTokenIsAuthentic L s token = true ∧
        waIdFromTokenUnverified token = some waId := by
  simp [waIdFromToken]

theorem UrlSafe.verifies {L : Lib} (h : UrlSafe L) (secret : Secret) (waId : String)
    (raw : List UInt8) : sessionMacVerifies L secret (issueSessionToken L secret waId raw) = true :=
  sessionMacVerifies_iff.mpr ⟨waId, L.base64Url raw, rfl, h.parts raw _⟩

theorem UrlSafe.sessionNonce {L : Lib} (h : UrlSafe L) (secret : Secret) (waId : String)
    (raw : List UInt8) :
    sessionNonce (issueSessionToken L secret waId raw) = some (L.base64Url raw) :=
  sessionNonce_spell (h.parts raw _)

/-- What is minted is read back, until its nonce is revoked. -/
theorem waIdFromToken_issue {L : Lib} (hurl : UrlSafe L) {s : Sessions} {raw : List UInt8}
    (waId : String) (h : L.base64Url raw ∉ s.revoked) :
    waIdFromToken L s (issueSessionToken L s.secret waId raw) = some waId := by
  rw [waIdFromToken_eq_some_iff, sessionTokenIsAuthentic_iff]
  have hrevoked : sessionIsRevoked s.revoked (issueSessionToken L s.secret waId raw) = false := by
    simp [sessionIsRevoked, hurl.sessionNonce, h]
  exact ⟨⟨hurl.verifies s.secret waId raw, hrevoked⟩,
    waIdFromTokenUnverified_spell (hurl.parts raw _)⟩

/-- No mac under the current secret but of a message that a mint signed. -/
def Unforged (L : Lib) (s : Sessions) (token : String) : Prop :=
  ∀ waId nonce, token = spell waId nonce (sessionMac L s.secret waId nonce) →
    ∃ m ∈ s.minted, m.secret = s.secret ∧ macMessage m.waId m.nonce = macMessage waId nonce

/-! ## The process -/

section

variable {L : Lib} {c : Config Sessions Phase} {m : Move Call Env}

/-- Every mint answered its caller. -/
def MintsTold (L : Lib) (c : Config Sessions Phase) : Prop :=
  ∀ mint ∈ c.shared.minted, ∃ raw, mint.nonce = L.base64Url raw ∧
    .told (.issued (issueSessionToken L mint.secret mint.waId raw)) ∈ c.tasks

/-- An answer stands. -/
theorem told_step {answer : Answer} (h : .told answer ∈ c.tasks) :
    .told answer ∈ ((sessionServer L).step c m).tasks :=
  (sessionServer L).step_mem_of_fixed (fun _ _ => rfl) h

/-- What a step mints, the caller is told. -/
theorem minted_advance {env : Env} {t : Phase} {s : Sessions} {mint : Mint}
    (h : mint ∈ (t.advance L env s).1.minted) :
    mint ∈ s.minted ∨ mint.nonce = L.base64Url env.raw ∧
      (t.advance L env s).2 = .told (.issued (issueSessionToken L mint.secret mint.waId env.raw)) := by
  cases t with
  | called call =>
    cases call with
    | issue waId =>
      rcases List.mem_cons.mp h with rfl | h
      · exact Or.inr ⟨rfl, rfl⟩
      · exact Or.inl h
    | isAuthentic token =>
      left
      simp only [Phase.advance] at h
      split at h
      · exact h
      · exact h
    | revoke token =>
      left
      simp only [Phase.advance] at h
      split at h
      · exact h
      · exact h
  | checking token => exact Or.inl h
  | revoking token =>
    left
    simp only [Phase.advance, Sessions.endSession] at h
    split at h
    · exact h
    · split at h
      · exact h
      · exact h
  | told answer => exact Or.inl h

/-- **Step lemma.** -/
theorem mintsTold_step (h : MintsTold L c) : MintsTold L ((sessionServer L).step c m) := by
  intro mint hmint
  cases m with
  | arrive call =>
    obtain ⟨raw, hnonce, htold⟩ := h mint hmint
    exact ⟨raw, hnonce, told_step htold⟩
  | advance i env =>
    cases ht : c.tasks[i]? with
    | none =>
      rw [System.step_advance_none _ _ ht] at hmint
      obtain ⟨raw, hnonce, htold⟩ := h mint hmint
      exact ⟨raw, hnonce, told_step htold⟩
    | some t =>
      have hstep := System.step_advance_some (sessionServer L) env ht
      rw [hstep] at hmint
      rcases minted_advance hmint with hmint | ⟨hnonce, htold⟩
      · obtain ⟨raw, hnonce, htold⟩ := h mint hmint
        exact ⟨raw, hnonce, told_step htold⟩
      · refine ⟨env.raw, hnonce, ?_⟩
        rw [hstep, ← htold]
        exact List.mem_set (List.getElem?_eq_some_iff.mp ht).1 _

end

/-- **Run.** What is minted is read back until it is revoked; and what is accepted was minted
    for the very wa_id that is read from it, under the current secret. -/
theorem token_exact (L : Lib) (hurl : UrlSafe L) (secret : Secret) (moves : List (Move Call Env)) :
    let c := after (sessionServer L).step (start secret) moves
    (∀ waId raw, L.base64Url raw ∉ c.shared.revoked →
      waIdFromToken L c.shared (issueSessionToken L c.shared.secret waId raw) = some waId) ∧
    (∀ token waId, (∀ ch ∈ token.toList, HeaderChar ch) → Unforged L c.shared token →
      waIdFromToken L c.shared token = some waId →
      ∃ raw, token = issueSessionToken L c.shared.secret waId raw ∧
        .told (.issued token) ∈ c.tasks) := by
  intro c
  have hminted : MintsTold L c :=
    after_invariant (fun _ _ h => mintsTold_step h) (fun _ h => by cases h)
  constructor
  · intro waId raw hraw
    exact waIdFromToken_issue hurl waId hraw
  · intro token waId hheader hunforged haccepted
    obtain ⟨hauthentic, hwaId⟩ := waIdFromToken_eq_some_iff.mp haccepted
    obtain ⟨hmac, -⟩ := sessionTokenIsAuthentic_iff.mp hauthentic
    obtain ⟨waId', nonce, htoken, hparts⟩ := sessionMacVerifies_iff.mp hmac
    obtain rfl : waId' = waId := by
      rw [htoken, waIdFromTokenUnverified_spell hparts] at hwaId
      exact Option.some.inj hwaId
    -- the message was signed for a mint, and it has one reading
    obtain ⟨mint, hmint, hsecret, hmessage⟩ := hunforged waId' nonce htoken
    obtain ⟨raw, hnonce, htold⟩ := hminted mint hmint
    have hbytes : (0x1f : UInt8) ∉ utf8 mint.nonce := hnonce ▸ hurl.not_mem_utf8 raw
    have hbytes' : (0x1f : UInt8) ∉ utf8 nonce := by
      refine not_mem_utf8_of_header fun ch hch => hheader ch ?_
      rw [htoken]
      simp [spell, hch]
    obtain ⟨hwaIdEq, hnonceEq⟩ := macMessage_inj hbytes hbytes' hmessage
    have hissued : token = issueSessionToken L c.shared.secret waId' raw := by
      rw [htoken, issueSessionToken, ← hnonce, hnonceEq]
    rw [hsecret, hwaIdEq, ← hissued] at htold
    exact ⟨raw, hissued, htold⟩

/-! ## One token -/

namespace Fixture

def base64UrlAlphabet : List Char :=
  "ABCDEFGHIJKLMNOPQRSTUVWXYZabcdefghijklmnopqrstuvwxyz0123456789-_".toList

def base64UrlDigit (n : Nat) : Char := base64UrlAlphabet.getD n 'A'

/-- `URL_SAFE_NO_PAD`. -/
def base64UrlDigits : List UInt8 → List Char
  | [] => []
  | [a] => [base64UrlDigit (a.toNat / 4), base64UrlDigit (a.toNat % 4 * 16)]
  | [a, b] =>
    [base64UrlDigit (a.toNat / 4), base64UrlDigit (a.toNat % 4 * 16 + b.toNat / 16),
      base64UrlDigit (b.toNat % 16 * 4)]
  | a :: b :: c :: rest =>
    base64UrlDigit (a.toNat / 4) :: base64UrlDigit (a.toNat % 4 * 16 + b.toNat / 16) ::
      base64UrlDigit (b.toNat % 16 * 4 + c.toNat / 64) :: base64UrlDigit (c.toNat % 64) ::
      base64UrlDigits rest

theorem urlSafe_digit (n : Nat) :
    (base64UrlDigit n).isAlphanum = true ∨ base64UrlDigit n = '-' ∨ base64UrlDigit n = '_' := by
  have halphabet : base64UrlAlphabet.all (fun c => c.isAlphanum || c == '-' || c == '_') = true := by
    decide
  rw [base64UrlDigit, List.getD_eq_getElem?_getD]
  cases hget : base64UrlAlphabet[n]? with
  | none => decide
  | some c =>
    have hc := List.all_eq_true.mp halphabet c (List.mem_of_getElem? hget)
    simpa [or_assoc] using hc

theorem urlSafe_digits (bytes : List UInt8) :
    ∀ c ∈ base64UrlDigits bytes, c.isAlphanum = true ∨ c = '-' ∨ c = '_' := by
  induction bytes using base64UrlDigits.induct with
  | case1 => simp [base64UrlDigits]
  | case2 a => simp [base64UrlDigits, urlSafe_digit]
  | case3 a b => simp [base64UrlDigits, urlSafe_digit]
  | case4 a b c rest ih => simpa [base64UrlDigits, urlSafe_digit] using ih

def secret : Secret :=
  [1, 2, 3, 4, 5, 6, 7, 8, 9, 10, 11, 12, 13, 14, 15, 16, 17, 18, 19, 20, 21, 22, 23, 24, 25, 26,
    27, 28, 29, 30, 31, 32]

def raw : List UInt8 := List.replicate 24 0

/-- `wa:b.c`, `0x1f`, and the nonce of 24 zeros. -/
def message : List UInt8 := [0x77, 0x61, 0x3a, 0x62, 0x2e, 0x63, 0x1f] ++ List.replicate 32 0x41

/-- The message's HMAC-SHA256 under the secret. -/
def tag : List UInt8 :=
  [182, 77, 45, 198, 229, 138, 232, 10, 17, 103, 3, 94, 120, 95, 45, 174, 127, 23, 157, 222, 55,
    252, 177, 205, 211, 145, 220, 106, 191, 161, 113, 163]

/-- HMAC-SHA256 at that input; elsewhere a tag that tells the key. -/
def hmac (key : Secret) (bytes : List UInt8) : List UInt8 :=
  if bytes = message ∧ key = secret then tag
  else if bytes = message ∧ key = tag then secret
  else key

def lib : Lib where
  hmac := hmac
  base64Url bytes := String.ofList (base64UrlDigits bytes)

theorem urlSafe : UrlSafe lib := by
  intro bytes c hc
  exact urlSafe_digits bytes c (by simpa [lib] using hc)

def nonce : String := "AAAAAAAAAAAAAAAAAAAAAAAAAAAAAAAA"

def mac : String := "tk0txuWK6AoRZwNeeF8trn8Xnd43_LHN05Hcar-hcaM"

def token : String := "sess:wa:b.c:" ++ nonce ++ "." ++ mac

theorem issue_eq : issueSessionToken lib secret "wa:b.c" raw = token := by decide

theorem headerChar_token : ∀ c ∈ token.toList, HeaderChar c := by
  have hall : token.toList.all (fun c => 32 ≤ c.toNat && c.toNat < 127) = true := by decide
  intro c hc
  have hvisible := List.all_eq_true.mp hall c hc
  rw [Bool.and_eq_true, decide_eq_true_eq, decide_eq_true_eq] at hvisible
  exact Or.inl hvisible

theorem unforged {s : Sessions} (hsecret : s.secret = secret)
    (hmint : ⟨secret, "wa:b.c", nonce⟩ ∈ s.minted) : Unforged lib s token := by
  intro waId nonce' h
  -- a mac has no dot, so it is what follows the last one
  have hdot : '.' ∉ (sessionMac lib s.secret waId nonce').toList := (urlSafe.parts _ []).1
  have hcut : List.rsplitOnce '.' token.toList =
      some (("sess:" ++ waId ++ ":" ++ nonce').toList,
        (sessionMac lib s.secret waId nonce').toList) :=
    List.rsplitOnce_eq_some_iff.mpr ⟨by rw [h]; simp [spell], hdot⟩
  have hcut' : List.rsplitOnce '.' token.toList =
      some (("sess:wa:b.c:" ++ nonce).toList, mac.toList) := by decide
  have hlast : sessionMac lib s.secret waId nonce' = mac := by
    rw [hcut, Option.some.injEq, Prod.mk.injEq] at hcut'
    exact String.toList_inj.mp hcut'.2
  refine ⟨_, hmint, hsecret.symm, ?_⟩
  by_cases hmessage : macMessage waId nonce' = message
  · rw [hmessage]
    decide
  · have hkey : hmac s.secret (macMessage waId nonce') = secret := by
      simp [hmac, hmessage, hsecret]
    have hother : lib.base64Url secret = mac := hkey ▸ hlast
    exact absurd hother (by decide)

end Fixture

theorem token_exact_minted :
    let c := after (sessionServer Fixture.lib).step (start Fixture.secret)
      [.arrive (.issue "wa:b.c"), .advance 0 ⟨Fixture.raw, []⟩]
    waIdFromToken Fixture.lib c.shared Fixture.token = some "wa:b.c" ∧
      .told (.issued Fixture.token) ∈ c.tasks := by
  intro c
  obtain ⟨hread, haccepted⟩ := token_exact Fixture.lib Fixture.urlSafe Fixture.secret
    [.arrive (.issue "wa:b.c"), .advance 0 ⟨Fixture.raw, []⟩]
  have hwaId : waIdFromToken Fixture.lib c.shared Fixture.token = some "wa:b.c" := by
    rw [← Fixture.issue_eq]
    exact hread "wa:b.c" Fixture.raw List.not_mem_nil
  obtain ⟨raw, -, htold⟩ := haccepted Fixture.token "wa:b.c" Fixture.headerChar_token
    (Fixture.unforged rfl (List.mem_singleton.mpr rfl)) hwaId
  exact ⟨hwaId, htold⟩

end CirisServer.SessionToken
