import CirisServer.ForStd.Group
import Mathlib.Data.List.Basic
import Mathlib.Data.List.Chain
import Mathlib.Data.List.Nodup

/-!
# Threads in a table

A table whose rows have keys of their own may be made of threads: every row but the first of a
thread is linked to the row before it, and says so by that row's key. The table lists the rows in
no order, and there may be others in it.

Key results:
- `Threaded.link_iff`: a row is linked to another exactly if it comes next in its thread
- `Threaded.start`, `Threaded.extend`: a new thread, and a row more at the end of one
-/

universe u v

variable {α : Type u} {κ : Type v} {key : α → κ} {link : α → α → Prop} {threads : List (List α)}

/-- `link p r` says that `r` is linked to `p`. -/
structure Threaded (key : α → κ) (link : α → α → Prop) (threads : List (List α)) : Prop where
  keys : (threads.flatten.map key).Nodup
  chain : ∀ t ∈ threads, t.IsChain link
  first : ∀ t ∈ threads, ∀ r ∈ t.head?, ∀ p, ¬ link p r
  nonempty : ∀ t ∈ threads, t ≠ []

namespace Threaded

variable {t t' pre post : List α} {p q r v : α}

theorem inj (h : Threaded key link threads) (hp : p ∈ threads.flatten) (hq : q ∈ threads.flatten)
    (hkey : key p = key q) : p = q := List.inj_on_of_nodup_map h.keys hp hq hkey

/-- No row is in two threads. -/
theorem eq_of_mem (h : Threaded key link threads) (ht : t ∈ threads) (ht' : t' ∈ threads)
    (hp : p ∈ t) (hp' : p ∈ t') : t = t' := by
  have hdisjoint := (List.nodup_flatten.mp (List.Nodup.of_map _ h.keys)).2
  have : Std.Symm (List.Disjoint (α := α)) := ⟨fun _ _ h => h.symm⟩
  by_contra hne
  exact hdisjoint.forall ht ht' hne hp hp'

theorem nodup_of_mem (h : Threaded key link threads) (ht : t ∈ threads) : t.Nodup :=
  (List.nodup_flatten.mp (List.Nodup.of_map _ h.keys)).1 t ht

/-- A row that is linked comes after another. -/
theorem exists_before (h : Threaded key link threads) (ht : t ∈ threads) (hr : r ∈ t)
    (hlink : link p r) : ∃ pre q post, t = pre ++ q :: r :: post ∧ link q r := by
  obtain ⟨before, post, rfl⟩ := List.append_of_mem hr
  cases before using List.reverseRecOn with
  | nil => exact absurd hlink (h.first _ ht r rfl p)
  | append_singleton pre q =>
    have hsplit : pre ++ [q] ++ r :: post = pre ++ q :: r :: post := by simp
    have hchain := h.chain _ ht
    rw [hsplit, List.isChain_append_cons_cons] at hchain
    exact ⟨pre, q, post, hsplit, hchain.2.1⟩

/-- **Linked and next.** A row is linked to another exactly if it comes next in its thread. -/
theorem link_iff (h : Threaded key link threads)
    (hkey : ∀ p q r, link p r → link q r → key p = key q) (ht : t ∈ threads)
    (hsplit : t = pre ++ v :: post) (hr : r ∈ threads.flatten) :
    link v r ↔ post.head? = some r := by
  have hv : v ∈ t := by simp [hsplit]
  constructor
  · intro hlink
    obtain ⟨t', ht', hr'⟩ := List.mem_flatten.mp hr
    obtain ⟨pre', q, post', hsplit', hq⟩ := h.exists_before ht' hr' hlink
    have hq' : q ∈ t' := by simp [hsplit']
    -- the row before `r` is `v`
    have hvq : v = q := h.inj (List.mem_flatten_of_mem ht hv) (List.mem_flatten_of_mem ht' hq')
      (hkey v q r hlink hq)
    subst hvq
    have hsame := h.eq_of_mem ht ht' hv hq'
    have hnodup := h.nodup_of_mem ht
    rw [hsplit, List.nodup_middle, List.nodup_cons, List.mem_append, not_or] at hnodup
    have hboth : pre ++ v :: post = pre' ++ v :: r :: post' := by rw [← hsplit, hsame, hsplit']
    obtain ⟨-, -, hpost⟩ := (List.append_cons_inj_of_notMem hnodup.1.1 hnodup.1.2).mp hboth
    rw [hpost, List.head?_cons]
  · intro hhead
    cases post with
    | nil => cases hhead
    | cons x post =>
      cases hhead
      have hchain := h.chain t ht
      rw [hsplit, List.isChain_append_cons_cons] at hchain
      exact hchain.2.1

/-- A row that is linked to nothing begins a thread. -/
theorem start (h : Threaded key link threads) (hfresh : ∀ p ∈ threads.flatten, key p ≠ key r)
    (hfirst : ∀ p, ¬ link p r) : Threaded key link (threads ++ [[r]]) where
  keys := by
    rw [List.flatten_append, List.map_append]
    refine List.Nodup.append h.keys (by simp) ?_
    intro k hk hk'
    obtain ⟨p, hp, rfl⟩ := List.mem_map.mp hk
    exact hfresh p hp (by simpa using hk')
  chain t ht := by
    rcases List.mem_append.mp ht with ht | ht
    · exact h.chain t ht
    · rw [List.mem_singleton.mp ht]
      exact List.isChain_singleton r
  first t ht := by
    rcases List.mem_append.mp ht with ht | ht
    · exact h.first t ht
    · rw [List.mem_singleton.mp ht]
      intro r' hr' p
      cases hr'
      exact hfirst p
  nonempty t ht := by
    rcases List.mem_append.mp ht with ht | ht
    · exact h.nonempty t ht
    · simp [List.mem_singleton.mp ht]

/-- A row that is linked to the last of a thread goes on with it. -/
theorem extend {before after : List (List α)} (h : Threaded key link (before ++ t :: after))
    (hfresh : ∀ p ∈ (before ++ t :: after).flatten, key p ≠ key r)
    (hlast : ∀ p ∈ t.getLast?, link p r) : Threaded key link (before ++ (t ++ [r]) :: after) := by
  have hold : ∀ {x}, x ∈ before ++ (t ++ [r]) :: after → x = t ++ [r] ∨
      x ∈ before ++ t :: after := by
    intro x hx
    simp only [List.mem_append, List.mem_cons] at hx ⊢
    tauto
  have ht : t ∈ before ++ t :: after := by simp
  have hperm : ((before ++ (t ++ [r]) :: after).flatten).Perm
      (r :: (before ++ t :: after).flatten) := by
    simp only [List.flatten_append, List.flatten_cons, List.append_assoc, List.singleton_append]
    rw [← List.append_assoc, ← List.append_assoc]
    exact List.perm_middle
  refine ⟨?_, ?_, ?_, ?_⟩
  · rw [(hperm.map key).nodup_iff, List.map_cons, List.nodup_cons]
    refine ⟨?_, h.keys⟩
    intro hmem
    obtain ⟨p, hp, hkey⟩ := List.mem_map.mp hmem
    exact hfresh p hp hkey
  · intro x hx
    rcases hold hx with rfl | hx
    · rw [List.isChain_append]
      refine ⟨h.chain t ht, List.isChain_singleton r, ?_⟩
      intro p hp q hq
      cases hq
      exact hlast p hp
    · exact h.chain x hx
  · intro x hx
    rcases hold hx with rfl | hx
    · rw [List.head?_append_of_ne_nil _ (h.nonempty t ht)]
      exact h.first t ht
    · exact h.first x hx
  · intro x hx
    rcases hold hx with rfl | hx
    · simp
    · exact h.nonempty x hx

end Threaded
