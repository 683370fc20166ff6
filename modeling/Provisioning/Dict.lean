/-!
# Dictionaries

Entries under text keys, in ascending order of the keys. `put` keeps the order and replaces the
entry of a key that is there already.
-/

namespace Provisioning

/-- Entries under distinct keys, ascending by code points. -/
abbrev Dict (α : Type) := List (String × α)

namespace Dict

variable {α β : Type}

def get? : Dict α → String → Option α
  | [], _ => none
  | (k, a) :: rest, key => if key = k then some a else get? rest key

def contains (d : Dict α) (key : String) : Bool := (get? d key).isSome

def put : Dict α → String → α → Dict α
  | [], key, a => [(key, a)]
  | (k, b) :: rest, key, a =>
    if key = k then (key, a) :: rest
    else if key < k then (key, a) :: (k, b) :: rest
    else (k, b) :: put rest key a

/-- Puts the entries in one by one, so the last entry of a repeated key stays. -/
def ofList (entries : List (String × α)) : Dict α :=
  entries.foldl (fun d e => put d e.1 e.2) []

def keys (d : Dict α) : List String := d.map Prod.fst

def values (d : Dict α) : List α := d.map Prod.snd

def Sorted (d : Dict α) : Prop := (keys d).Pairwise (· < ·)

@[simp] theorem get?_nil (key : String) : get? ([] : Dict α) key = none := rfl

theorem get?_cons (k key : String) (a : α) (rest : Dict α) :
    get? ((k, a) :: rest) key = if key = k then some a else get? rest key := rfl

theorem get?_put (d : Dict α) (key other : String) (a : α) :
    get? (put d key a) other = if other = key then some a else get? d other := by
  induction d with
  | nil => simp [put, get?]
  | cons e rest ih =>
    obtain ⟨k, b⟩ := e
    by_cases hk : key = k
    · subst hk
      by_cases ho : other = key <;> simp [put, get?, ho]
    · by_cases hl : key < k
      · simp [put, get?, hk, hl]
      · by_cases ho : other = k
        · subst ho
          simp [put, get?, hk, hl, Ne.symm hk]
        · simp [put, get?, hk, hl, ho, ih]

theorem mem_keys_put (d : Dict α) (key other : String) (a : α) :
    other ∈ keys (put d key a) ↔ other = key ∨ other ∈ keys d := by
  induction d with
  | nil => simp [put, keys]
  | cons e rest ih =>
    obtain ⟨k, b⟩ := e
    by_cases hk : key = k
    · subst hk
      simp [put, keys]
    · by_cases hl : key < k
      · simp [put, keys, hk, hl]
      · have ih' : other ∈ (put rest key a).map Prod.fst ↔
            other = key ∨ other ∈ rest.map Prod.fst := ih
        simp only [put, hk, hl, if_false, keys, List.map_cons, List.mem_cons, ih']
        exact or_left_comm

theorem get?_eq_none_iff (d : Dict α) (key : String) : get? d key = none ↔ key ∉ keys d := by
  induction d with
  | nil => simp [keys]
  | cons e rest ih =>
    obtain ⟨k, b⟩ := e
    have ih' : get? rest key = none ↔ key ∉ rest.map Prod.fst := ih
    by_cases hk : key = k
    · simp [get?, keys, hk]
    · simp [get?, keys, hk, ih']

theorem mem_keys_iff (d : Dict α) (key : String) : key ∈ keys d ↔ ∃ a, get? d key = some a := by
  rw [← Decidable.not_not (p := key ∈ keys d), ← get?_eq_none_iff]
  cases get? d key <;> simp

theorem contains_eq_false_iff (d : Dict α) (key : String) :
    contains d key = false ↔ get? d key = none := by
  simp [contains]

theorem contains_eq_true_iff (d : Dict α) (key : String) :
    contains d key = true ↔ ∃ a, get? d key = some a := by
  simp [contains, Option.isSome_iff_exists]

theorem mem_of_get?_eq_some {d : Dict α} {key : String} {a : α} (h : get? d key = some a) :
    (key, a) ∈ d := by
  induction d with
  | nil => cases h
  | cons e rest ih =>
    obtain ⟨k, b⟩ := e
    rw [get?_cons] at h
    split at h
    · rename_i hk
      cases h
      rw [hk]
      exact List.mem_cons_self
    · exact List.mem_cons_of_mem _ (ih h)

theorem eq_or_mem_of_mem_put {d : Dict α} {key : String} {a : α} {e : String × α}
    (h : e ∈ put d key a) : e = (key, a) ∨ e ∈ d := by
  induction d with
  | nil => exact .inl (List.mem_singleton.mp h)
  | cons f rest ih =>
    obtain ⟨k, b⟩ := f
    rw [put] at h
    split at h
    · rcases List.mem_cons.mp h with h | h
      · exact .inl h
      · exact .inr (List.mem_cons_of_mem _ h)
    · split at h
      · exact List.mem_cons.mp h
      · rcases List.mem_cons.mp h with h | h
        · exact .inr (h ▸ List.mem_cons_self)
        · exact (ih h).imp_right (List.mem_cons_of_mem _)

theorem put_perm_of_fresh (d : Dict α) (key : String) (a : α) (h : get? d key = none) :
    (put d key a).Perm ((key, a) :: d) := by
  induction d with
  | nil => exact List.Perm.refl _
  | cons e rest ih =>
    obtain ⟨k, b⟩ := e
    by_cases hk : key = k
    · simp [get?, hk] at h
    · by_cases hl : key < k
      · simp only [put, hk, hl, if_false, if_true]
        exact List.Perm.refl _
      · have hr : get? rest key = none := by simpa [get?, hk] using h
        simp only [put, hk, hl, if_false]
        exact ((ih hr).cons (k, b)).trans (List.Perm.swap (key, a) (k, b) rest)

theorem keys_put_of_fresh (d : Dict α) (key : String) (a : α) (h : get? d key = none) :
    (keys (put d key a)).Perm (key :: keys d) := (put_perm_of_fresh d key a h).map Prod.fst

theorem sorted_cons (k : String) (a : α) (rest : Dict α) :
    Sorted ((k, a) :: rest) ↔ (∀ other ∈ keys rest, k < other) ∧ Sorted rest :=
  List.pairwise_cons

theorem sorted_put (d : Dict α) (key : String) (a : α) (h : Sorted d) : Sorted (put d key a) := by
  induction d with
  | nil => exact (sorted_cons key a []).mpr ⟨fun _ hm => absurd hm List.not_mem_nil, h⟩
  | cons e rest ih =>
    obtain ⟨k, b⟩ := e
    obtain ⟨hk, hr⟩ := (sorted_cons k b rest).mp h
    by_cases he : key = k
    · subst he
      simp only [put, if_true]
      exact (sorted_cons key a rest).mpr ⟨hk, hr⟩
    · by_cases hl : key < k
      · simp only [put, he, hl, if_false, if_true]
        refine (sorted_cons key a _).mpr ⟨?_, h⟩
        intro other hm
        rcases List.mem_cons.mp hm with rfl | hm
        · exact hl
        · exact String.lt_trans hl (hk other hm)
      · simp only [put, he, hl, if_false]
        refine (sorted_cons k b _).mpr ⟨?_, ih hr⟩
        intro other hm
        rcases (mem_keys_put rest key other a).mp hm with rfl | hm
        · have hle : k ≤ other := String.not_lt.mp hl
          exact Std.lt_of_le_of_ne hle (Ne.symm he)
        · exact hk other hm

theorem put_put (d : Dict α) (key : String) (a b : α) : put (put d key a) key b = put d key b := by
  induction d with
  | nil => simp [put]
  | cons e rest ih =>
    obtain ⟨k, c⟩ := e
    by_cases hk : key = k
    · simp [put, hk]
    · by_cases hl : key < k
      · simp [put, hk, hl]
      · simp [put, hk, hl, ih]

theorem put_comm_of_lt (d : Dict α) {key other : String} (h : key < other) (a b : α) :
    put (put d key a) other b = put (put d other b) key a := by
  have hne : other ≠ key := fun he => String.lt_irrefl key (he ▸ h)
  have hnot : ¬ other < key := fun hl => String.lt_irrefl key (String.lt_trans h hl)
  induction d with
  | nil => simp [put, hne, hne.symm, hnot, h]
  | cons e rest ih =>
    obtain ⟨k, c⟩ := e
    by_cases hk : key = k
    · subst hk
      simp [put, hne, hnot]
    by_cases hl : key < k
    · -- the smaller key comes first, whatever the other one does to the rest
      have hfirst : put (put ((k, c) :: rest) other b) key a =
          (key, a) :: put ((k, c) :: rest) other b := by
        rw [put]
        split
        · subst k
          simp [put, hne.symm, h]
        · split
          · simp [put, hne.symm, h]
          · simp [put, hk, hl]
      rw [hfirst]
      simp [put, hk, hl, hne, hnot]
    · have hlt : k < other := Std.lt_of_le_of_lt (String.not_lt.mp hl) h
      have hkne : other ≠ k := fun he => String.lt_irrefl k (he ▸ hlt)
      have hknot : ¬ other < k := fun ho => String.lt_irrefl k (String.lt_trans hlt ho)
      simp [put, hk, hl, hkne, hknot, ih]

theorem sorted_ofList (entries : List (String × α)) : Sorted (ofList entries) := by
  have step : ∀ (rest : List (String × α)) (d : Dict α), Sorted d →
      Sorted (rest.foldl (fun d e => put d e.1 e.2) d) := by
    intro rest
    induction rest with
    | nil => exact fun _ h => h
    | cons e rest ih => exact fun d h => ih (put d e.1 e.2) (sorted_put d e.1 e.2 h)
  exact step entries [] List.Pairwise.nil

theorem mem_of_mem_ofList {entries : List (String × α)} {e : String × α} (h : e ∈ ofList entries) :
    e ∈ entries := by
  have step : ∀ (rest : List (String × α)) (d : Dict α),
      e ∈ rest.foldl (fun d e => put d e.1 e.2) d → e ∈ d ∨ e ∈ rest := by
    intro rest
    induction rest with
    | nil => exact fun _ h => .inl h
    | cons f rest ih =>
      intro d hd
      rcases ih _ hd with h | h
      · rcases eq_or_mem_of_mem_put h with rfl | h
        · exact .inr List.mem_cons_self
        · exact .inl h
      · exact .inr (List.mem_cons_of_mem _ h)
  rcases step entries [] h with h | h
  · cases h
  · exact h

theorem mem_keys_ofList {entries : List (String × α)} {e : String × α} (h : e ∈ entries) :
    e.1 ∈ keys (ofList entries) := by
  have step : ∀ (rest : List (String × α)) (d : Dict α), (e ∈ rest ∨ e.1 ∈ keys d) →
      e.1 ∈ keys (rest.foldl (fun d e => put d e.1 e.2) d) := by
    intro rest
    induction rest with
    | nil => exact fun d h => h.resolve_left List.not_mem_nil
    | cons f rest ih =>
      intro d hd
      refine ih (put d f.1 f.2) ?_
      rw [mem_keys_put]
      rcases hd with hd | hd
      · rcases List.mem_cons.mp hd with rfl | hd
        · exact .inr (.inl rfl)
        · exact .inl hd
      · exact .inr (.inr hd)
  exact step entries [] (.inl h)

theorem ofList_perm {entries : List (String × α)} (h : (keys entries).Nodup) :
    (ofList entries).Perm entries := by
  have step : ∀ (rest : List (String × α)) (d : Dict α), (keys (rest ++ d)).Nodup →
      (rest.foldl (fun d e => put d e.1 e.2) d).Perm (rest ++ d) := by
    intro rest
    induction rest with
    | nil => exact fun d _ => List.Perm.refl d
    | cons e rest ih =>
      intro d hd
      have hkeys : e.1 ∉ keys (rest ++ d) ∧ (keys (rest ++ d)).Nodup := List.nodup_cons.mp hd
      have hfresh : get? d e.1 = none := by
        rw [get?_eq_none_iff]
        intro hm
        exact hkeys.1 (by rw [keys, List.map_append]; exact List.mem_append_right _ hm)
      have hput := put_perm_of_fresh d e.1 e.2 hfresh
      have hmove : (rest ++ put d e.1 e.2).Perm (e :: (rest ++ d)) :=
        (hput.append_left rest).trans List.perm_middle
      have hnodup : (keys (rest ++ put d e.1 e.2)).Nodup :=
        (hmove.map Prod.fst).nodup_iff.mpr hd
      exact (ih (put d e.1 e.2) hnodup).trans hmove
  have hperm := step entries [] (by rwa [List.append_nil])
  rwa [List.append_nil] at hperm

theorem get?_of_mem {d : Dict α} (h : (keys d).Nodup) {e : String × α} (he : e ∈ d) :
    get? d e.1 = some e.2 := by
  induction d with
  | nil => cases he
  | cons f rest ih =>
    obtain ⟨hf, hrest⟩ := List.nodup_cons.mp h
    rw [get?_cons]
    rcases List.mem_cons.mp he with rfl | he
    · exact if_pos rfl
    · have hne : e.1 ≠ f.1 := fun heq => hf (heq ▸ List.mem_map_of_mem (f := Prod.fst) he)
      rw [if_neg hne]
      exact ih hrest he

theorem nodup_keys_of_sorted {d : Dict α} (h : Sorted d) : (keys d).Nodup :=
  List.Pairwise.imp (fun hlt => (String.ne_of_lt hlt)) h

/-- A dictionary is rebuilt from its entries in any order. -/
theorem ofList_of_perm {entries : List (String × α)} {d : Dict α} (h : entries.Perm d)
    (hd : Sorted d) : ofList entries = d := by
  have hkeys : (keys entries).Nodup := (h.map Prod.fst).nodup_iff.mpr (nodup_keys_of_sorted hd)
  have hsorted : (ofList entries).Pairwise fun a b => a.1 < b.1 :=
    List.pairwise_map.mp (sorted_ofList entries)
  refine List.Perm.eq_of_pairwise ?_ hsorted (List.pairwise_map.mp hd) ((ofList_perm hkeys).trans h)
  exact fun a b _ _ hab hba => absurd (String.lt_trans hab hba) (String.lt_irrefl _)

/-- Two dictionaries in order that agree on every key are equal. -/
theorem eq_of_get?_eq {d e : Dict α} (hd : Sorted d) (he : Sorted e)
    (h : ∀ key, get? d key = get? e key) : d = e := by
  have none_below {k : String} {r : Dict α} (hr : ∀ other ∈ keys r, k < other) :
      get? r k = none := by
    rw [get?_eq_none_iff]
    intro hm
    exact String.lt_irrefl k (hr k hm)
  induction d generalizing e with
  | nil =>
    cases e with
    | nil => rfl
    | cons f rest => simpa [get?] using h f.1
  | cons x xs ih =>
    obtain ⟨k, a⟩ := x
    obtain ⟨hk, hxs⟩ := (sorted_cons k a xs).mp hd
    cases e with
    | nil => simpa [get?] using h k
    | cons y ys =>
      obtain ⟨l, b⟩ := y
      obtain ⟨hl, hys⟩ := (sorted_cons l b ys).mp he
      -- the first keys are equal: the smaller of two different ones would be missing on one side
      have same : k = l := by
        have hmem : k ∈ keys ((l, b) :: ys) :=
          (mem_keys_iff _ k).mpr ⟨a, (h k).symm.trans (by simp [get?])⟩
        have hmem' : l ∈ keys ((k, a) :: xs) :=
          (mem_keys_iff _ l).mpr ⟨b, (h l).trans (by simp [get?])⟩
        rcases List.mem_cons.mp hmem with hkl | hlt
        · exact hkl
        · rcases List.mem_cons.mp hmem' with hlk | hlt'
          · exact hlk.symm
          · exact absurd (String.lt_trans (hl k hlt) (hk l hlt')) (String.lt_irrefl l)
      subst same
      have hab : a = b := by simpa [get?] using h k
      subst hab
      have htail : ∀ key, get? xs key = get? ys key := by
        intro key
        by_cases hkey : key = k
        · subst hkey
          rw [none_below hk, none_below hl]
        · simpa [get?, hkey] using h key
      rw [ih hxs hys htail]

end Dict

end Provisioning
