import Vllm.Base.Dict

/-! The keys of a dictionary in two lists: every key is in one of them, once, and a property of the
value says in which. The lists may also have what is not a key any more. -/

namespace Base
open Dict List

section
variable {α β : Type} {R R' : α → β → Prop} {a : Option α} {b : Option β}

theorem exists_of_rel_some {y : β} (h : Option.Rel R a b) (hb : b = some y) :
    ∃ x, a = some x ∧ R x y := by
  subst hb
  cases h with
  | some h => exact ⟨_, rfl, h⟩

theorem optionRel_mono (h : Option.Rel R a b) (hR : ∀ x y, R x y → R' x y) : Option.Rel R' a b := by
  cases h with
  | some h => exact .some (hR _ _ h)
  | none => exact .none

theorem optionRel_refl {R : α → α → Prop} (h : ∀ x, R x x) (a : Option α) : Option.Rel R a a := by
  cases a with
  | some x => exact .some (h x)
  | none => exact .none

end

variable {K V : Type} [DecidableEq K]

structure Filed (act : V → Prop) (run rest : List K) (d : Dict K V) : Prop where
  nodup : (run ++ rest).Nodup
  mem : ∀ k ∈ d.keys, k ∈ run ∨ k ∈ rest
  active : ∀ k v, d.get? k = some v → (k ∈ run ↔ act v)

namespace Filed
variable {act : V → Prop} {run rest run' rest' : List K} {d : Dict K V} {k : K} {v v' : V}

theorem empty : Filed act [] [] (∅ : Dict K V) :=
  ⟨nodup_nil, fun _ hk => (nomatch hk), fun _ _ hk => (nomatch hk)⟩

section
variable (h : Filed act run rest d)
include h

theorem run_nodup : run.Nodup := (nodup_append.mp h.nodup).1

theorem rest_nodup : rest.Nodup := (nodup_append.mp h.nodup).2.1

theorem not_mem_rest (hk : k ∈ run) : k ∉ rest :=
  fun hr => (nodup_append.mp h.nodup).2.2 k hk k hr rfl

theorem not_mem_run (hk : k ∈ rest) : k ∉ run :=
  fun hr => h.not_mem_rest hr hk

theorem perm (hrun : run'.Perm run) (hrest : rest'.Perm rest) : Filed act run' rest' d where
  nodup := (hrun.append hrest).nodup_iff.mpr h.nodup
  mem k hk := (h.mem k hk).imp hrun.mem_iff.mpr hrest.mem_iff.mpr
  active k v hv := by rw [hrun.mem_iff, h.active k v hv]

theorem set (hk : d.get? k = some v) (hact : act v' ↔ act v) : Filed act run rest (d.set k v') where
  nodup := h.nodup
  mem k' hk' := by
    refine h.mem k' ((mem_keys_set.mp hk').elim (fun heq => ?_) fun hin => hin)
    exact heq ▸ mem_keys_of_get? hk
  active k' w hw := by
    rw [get?_set] at hw
    split at hw
    · next heq =>
      cases hw
      rw [heq, h.active k v hk, hact]
    · exact h.active k' w hw

theorem demote (hk : k ∈ run) (hact : ¬act v') :
    Filed act (run.erase k) (k :: rest) (d.set k v') where
  nodup := by
    have hperm : (run.erase k ++ k :: rest).Perm (run ++ rest) :=
      perm_middle.trans ((perm_cons_erase hk).append_right rest).symm
    exact hperm.nodup_iff.mpr h.nodup
  mem k' hk' := by
    by_cases heq : k' = k
    · exact .inr (heq ▸ mem_cons_self)
    · have hin := (mem_keys_set.mp hk').resolve_left heq
      exact (h.mem k' hin).imp (mem_erase_of_ne heq).mpr (mem_cons_of_mem _)
  active k' w hw := by
    rw [get?_set] at hw
    rw [h.run_nodup.mem_erase_iff]
    split at hw
    · next heq =>
      cases hw
      exact ⟨fun hm => absurd heq hm.1, fun ha => absurd ha hact⟩
    · next hne => exact (and_iff_right hne).trans (h.active k' w hw)

theorem promote (hk : k ∈ rest) (hact : act v') :
    Filed act (run ++ [k]) (rest.erase k) (d.set k v') where
  nodup := by
    have hperm : (run ++ [k] ++ rest.erase k).Perm (run ++ rest) := by
      rw [append_assoc]
      exact (perm_cons_erase hk).symm.append_left run
    exact hperm.nodup_iff.mpr h.nodup
  mem k' hk' := by
    by_cases heq : k' = k
    · exact .inl (mem_append_right _ (mem_singleton.mpr heq))
    · have hin := (mem_keys_set.mp hk').resolve_left heq
      exact (h.mem k' hin).imp (mem_append_left _) (mem_erase_of_ne heq).mpr
  active k' w hw := by
    rw [get?_set] at hw
    rw [mem_append, mem_singleton]
    split at hw
    · next heq =>
      cases hw
      exact ⟨fun _ => hact, fun _ => .inr heq⟩
    · next hne => exact (or_iff_left hne).trans (h.active k' w hw)

theorem add (hk : k ∉ run ++ rest) (hact : ¬act v') : Filed act run (k :: rest) (d.set k v') where
  nodup := perm_middle.nodup_iff.mpr (nodup_cons.mpr ⟨hk, h.nodup⟩)
  mem k' hk' := by
    rcases mem_keys_set.mp hk' with heq | hin
    · exact .inr (heq ▸ mem_cons_self)
    · exact (h.mem k' hin).imp_right (mem_cons_of_mem _)
  active k' w hw := by
    rw [get?_set] at hw
    split at hw
    · next heq =>
      cases hw
      rw [heq]
      exact ⟨fun hm => absurd (mem_append_left _ hm) hk, fun ha => absurd ha hact⟩
    · exact h.active k' w hw

theorem remove (hrest : rest'.Sublist rest)
    (hkeep : ∀ k' ∈ rest, k' ≠ k → k' ∈ rest') : Filed act (run.erase k) rest' (d.erase k) where
  nodup := h.nodup.sublist (erase_sublist.append hrest)
  mem k' hk' := by
    obtain ⟨hne, hin⟩ := mem_keys_erase.mp hk'
    exact (h.mem k' hin).imp (mem_erase_of_ne hne).mpr fun hm => hkeep k' hm hne
  active k' w hw := by
    rw [get?_erase] at hw
    split at hw
    · cases hw
    · next hne =>
      rw [h.run_nodup.mem_erase_iff]
      exact (and_iff_right hne).trans (h.active k' w hw)

theorem removeAll (ks : List K) :
    Filed act (run.filter (· ∉ ks)) (rest.filter (· ∉ ks)) (ks.foldl Dict.erase d) where
  nodup := h.nodup.sublist (filter_sublist.append filter_sublist)
  mem k hk := by
    obtain ⟨v, hv⟩ := exists_of_mem_keys hk
    rw [get?_foldl_erase] at hv
    split at hv
    · cases hv
    · next hks =>
      refine (h.mem k (mem_keys_of_get? hv)).imp (fun hm => ?_) fun hm => ?_
      · exact mem_filter.mpr ⟨hm, by simpa using hks⟩
      · exact mem_filter.mpr ⟨hm, by simpa using hks⟩
  active k v hv := by
    rw [get?_foldl_erase] at hv
    split at hv
    · cases hv
    · next hk =>
      rw [← h.active k v hv]
      simp [hk]

theorem congr {d' : Dict K V}
    (hrel : ∀ k, Option.Rel (fun v v' => act v' ↔ act v) (d.get? k) (d'.get? k)) :
    Filed act run rest d' where
  nodup := h.nodup
  mem k hk := by
    obtain ⟨w, hw⟩ := exists_of_mem_keys hk
    obtain ⟨v, hv, -⟩ := exists_of_rel_some (hrel k) hw
    exact h.mem k (mem_keys_of_get? hv)
  active k w hw := by
    obtain ⟨v, hv, hact⟩ := exists_of_rel_some (hrel k) hw
    exact (h.active k v hv).trans hact.symm

theorem count (hk : k ∈ d.keys) : (run ++ rest).count k = 1 :=
  count_eq_one_of_mem h.nodup (mem_append.mpr (h.mem k hk))

end

end Filed
end Base
