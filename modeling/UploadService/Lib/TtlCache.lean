import UploadService.Lib.ObjectMap

/-!
# Caches whose entries expire

An entry holds a value until a moment, and one value may be filed under several keys. A cache is
`Backed` where each entry holds what was known of its key at a moment at most `age` before the
entry expires; what is known only grows.

Main results:

- `Backed.file`: filing what is known of every key keeps the cache backed;
- `Backed.known_of_find`: what is read was known at most `age` before.
-/

namespace TtlCache

variable {β : Type}

structure Entry (β : Type) where
  data : β
  expiresAt : ℕ
  deriving DecidableEq, Repr

/-- The value of a key, where its entry has not expired. -/
def find (cache : List (String × Entry β)) (key : String) (now : ℕ) : Option β :=
  match ObjectMap.get? cache key with
  | some cached => if cached.expiresAt > now then some cached.data else none
  | none => none

/-- One entry under several keys, in order. -/
def file (entry : Entry β) : List String → List (String × Entry β) → List (String × Entry β)
  | [], cache => cache
  | key :: keys, cache => file entry keys (ObjectMap.set cache key entry)

/-- Every entry holds what was known of its key at a moment, at most `age` before it expires. -/
def Backed (known : ℕ → String → β → Prop) (age : ℕ) (cache : List (String × Entry β)) : Prop :=
  ∀ key cached, ObjectMap.get? cache key = some cached →
    ∃ t, known t key cached.data ∧ cached.expiresAt ≤ t + age

variable {known : ℕ → String → β → Prop} {age now t : ℕ} {cache : List (String × Entry β)}

theorem find_eq_some {key : String} {data : β} (h : find cache key now = some data) :
    ∃ cached, ObjectMap.get? cache key = some cached ∧ cached.data = data ∧
      now < cached.expiresAt := by
  unfold find at h
  cases hget : ObjectMap.get? cache key with
  | none =>
      rw [hget] at h
      cases h
  | some cached =>
      rw [hget] at h
      dsimp only at h
      split at h
      · next hlive => exact ⟨cached, rfl, Option.some.inj h, hlive⟩
      · cases h

/-- After filing, a key holds the new entry or what it held before. -/
theorem get?_file {entry : Entry β} {keys : List String} {key : String} {cached : Entry β}
    (h : ObjectMap.get? (file entry keys cache) key = some cached) :
    key ∈ keys ∧ cached = entry ∨ ObjectMap.get? cache key = some cached := by
  induction keys generalizing cache with
  | nil => exact .inr h
  | cons k keys ih =>
      rcases ih h with ⟨hkey, hcached⟩ | hbefore
      · exact .inl ⟨List.mem_cons_of_mem k hkey, hcached⟩
      · rw [ObjectMap.get?_set] at hbefore
        split at hbefore
        · next heq => exact .inl ⟨by simp [heq], (Option.some.inj hbefore).symm⟩
        · exact .inr hbefore

theorem backed_nil : Backed known age ([] : List (String × Entry β)) := by
  intro key cached h
  cases h

theorem Backed.mono {known' : ℕ → String → β → Prop} (h : Backed known age cache)
    (hknown : ∀ t key data, known t key data → known' t key data) : Backed known' age cache := by
  intro key cached hget
  obtain ⟨t, hdata, hexpires⟩ := h key cached hget
  exact ⟨t, hknown t key _ hdata, hexpires⟩

/-- **Step.** A value that was known of every key it is filed under. -/
theorem Backed.file (h : Backed known age cache) {entry : Entry β} {keys : List String}
    (hknown : ∀ key ∈ keys, known t key entry.data) (hage : entry.expiresAt ≤ t + age) :
    Backed known age (TtlCache.file entry keys cache) := by
  intro key cached hget
  rcases get?_file hget with ⟨hkey, rfl⟩ | hbefore
  · exact ⟨t, hknown key hkey, hage⟩
  · exact h key cached hbefore

/-- **Main result.** What is read was known at a moment less than `age` before. -/
theorem Backed.known_of_find (h : Backed known age cache) {key : String} {data : β}
    (hfind : find cache key now = some data) : ∃ t, known t key data ∧ now < t + age := by
  obtain ⟨cached, hget, rfl, hlive⟩ := find_eq_some hfind
  obtain ⟨t, hdata, hexpires⟩ := h key cached hget
  exact ⟨t, hdata, Nat.lt_of_lt_of_le hlive hexpires⟩

end TtlCache
