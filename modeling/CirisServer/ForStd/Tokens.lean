/-!
# Rewriting the tokens of a text

A token is a maximal run of elements with a property `p`; what lies between two tokens is a
separator. `mapTokens p f` rewrites every token by `f` and keeps the separators. The text of a
token is held back until the run ends, as a scanner does.

Key results:
- `mapTokens_append_cons`: a separator cuts the text
- `mapTokens_mapTokens`: a rewriting that leaves what it writes alone may be repeated
-/

universe u

namespace List

variable {α : Type u} {p : α → Bool} {f : List α → List α}

/-- The scan, with the token read so far. -/
def mapTokensFrom (p : α → Bool) (f : List α → List α) : List α → List α → List α
  | [], token => f token
  | x :: l, token =>
    if p x then mapTokensFrom p f l (token ++ [x])
    else f token ++ x :: mapTokensFrom p f l []

/-- Rewrites the tokens of `l`. The empty token is rewritten where two separators meet. -/
def mapTokens (p : α → Bool) (f : List α → List α) (l : List α) : List α := mapTokensFrom p f l []

/-- A separator cuts the text. -/
theorem mapTokensFrom_append_cons {x : α} (hx : p x = false) (l m token : List α) :
    mapTokensFrom p f (l ++ x :: m) token =
      mapTokensFrom p f l token ++ x :: mapTokens p f m := by
  induction l generalizing token with
  | nil => simp [mapTokensFrom, mapTokens, hx]
  | cons y l ih =>
    cases hy : p y with
    | true => simp [mapTokensFrom, hy, ih]
    | false => simp [mapTokensFrom, hy, ih]

theorem mapTokens_append_cons {x : α} (hx : p x = false) (l m : List α) :
    mapTokens p f (l ++ x :: m) = mapTokens p f l ++ x :: mapTokens p f m :=
  mapTokensFrom_append_cons hx l m []

theorem mapTokensFrom_of_all {l : List α} (hl : l.all p = true) (token : List α) :
    mapTokensFrom p f l token = f (token ++ l) := by
  induction l generalizing token with
  | nil => simp [mapTokensFrom]
  | cons x l ih =>
    rw [List.all_cons, Bool.and_eq_true] at hl
    rw [mapTokensFrom, if_pos hl.1, ih hl.2, List.append_assoc, List.singleton_append]

/-- A text without separators is one token. -/
theorem mapTokens_of_all {l : List α} (hl : l.all p = true) : mapTokens p f l = f l :=
  mapTokensFrom_of_all hl []

/-- Where what is written for a token is left alone by the rewriting, so is every rewritten
    text. -/
theorem mapTokens_mapTokens (hf : ∀ token, token.all p = true → mapTokens p f (f token) = f token)
    (l : List α) : mapTokens p f (mapTokens p f l) = mapTokens p f l := by
  -- the token read so far is a token
  suffices hfrom : ∀ token, token.all p = true →
      mapTokens p f (mapTokensFrom p f l token) = mapTokensFrom p f l token from hfrom [] rfl
  induction l with
  | nil => exact fun token htoken => hf token htoken
  | cons x l ih =>
    intro token htoken
    cases hx : p x with
    | true =>
      rw [mapTokensFrom, if_pos hx]
      exact ih (token ++ [x]) (by simp [htoken, hx])
    | false =>
      rw [mapTokensFrom, if_neg (by simp [hx]), mapTokens_append_cons hx, hf token htoken,
        ih [] rfl]

end List
