/-
The object store (`src/storage/s3.rs`): a map from keys to bytes. A call on
a key fails when the store says so; a failed `put` stores nothing.
-/
import DataApi.Error

namespace DataApi

abbrev ObjectStore := List (String × Bytes)

namespace ObjectStore

def lookup (st : ObjectStore) (key : String) : Option Bytes := (st.find? fun o => o.1 = key).map (·.2)

def insert (st : ObjectStore) (key : String) (body : Bytes) : ObjectStore :=
  (st.filter fun o => o.1 ≠ key) ++ [(key, body)]

def remove (st : ObjectStore) (key : String) : ObjectStore := st.filter fun o => o.1 ≠ key

/-- `S3Store::put`. -/
def put (fails : String → Bool) (st : ObjectStore) (key : String) (body : Bytes) :
    Except AppError Unit × ObjectStore :=
  if fails key then (.error (.s3 s!"put {key}" true), st) else (.ok (), st.insert key body)

/-- `S3Store::get`. -/
def get (fails : String → Bool) (st : ObjectStore) (key : String) : Except AppError Bytes :=
  if fails key then .error (.s3 s!"get {key}" true)
  else match st.lookup key with
    | some body => .ok body
    | none => .error (.notFound s!"object {key} not found")

/-- `S3Store::delete_many`: the keys in order, up to the first that fails. -/
def deleteMany (fails : String → Bool) : ObjectStore → List String → Nat → Except AppError Nat × ObjectStore
  | st, [], count => (.ok count, st)
  | st, k :: ks, count =>
    if fails k then (.error (.s3 s!"delete {k}" true), st) else deleteMany fails (st.remove k) ks (count + 1)

/-! ## What a key holds -/

variable {st : ObjectStore} {key other : String} {body : Bytes} {fails : String → Bool}

theorem lookup_remove_self : (st.remove key).lookup key = none := by
  have hnone : ((st.filter fun o => o.1 ≠ key).find? fun o => o.1 = key) = none := by
    refine List.find?_eq_none.2 fun o ho => ?_
    simpa using (List.mem_filter.1 ho).2
  rw [remove, lookup, hnone]; rfl

theorem lookup_remove_other (h : other ≠ key) : (st.remove key).lookup other = st.lookup other := by
  have hfind : ((st.filter fun o => o.1 ≠ key).find? fun o => o.1 = other) = st.find? fun o => o.1 = other := by
    rw [List.find?_filter]
    congr 1
    funext o
    by_cases ho : o.1 = other <;> simp [ho, h]
  rw [remove, lookup, hfind]; rfl

theorem lookup_insert_self : (st.insert key body).lookup key = some body := by
  have hnone : (st.filter fun o => o.1 ≠ key).find? (fun o => o.1 = key) = none := by
    refine List.find?_eq_none.2 fun o ho => ?_
    simpa using (List.mem_filter.1 ho).2
  rw [insert, lookup, List.find?_append, hnone]; simp

theorem lookup_insert_other (h : other ≠ key) : (st.insert key body).lookup other = st.lookup other := by
  rw [← @lookup_remove_other st _ _ h]
  simp [insert, remove, lookup, Ne.symm h]

theorem put_ok (h : fails key = false) : st.put fails key body = (.ok (), st.insert key body) := by
  simp [put, h]

theorem lookup_put_self (h : (st.put fails key body).1 = .ok ()) : (st.put fails key body).2.lookup key = some body := by
  unfold put at h ⊢
  split at h
  · cases h
  · next hf => simpa [hf] using lookup_insert_self

theorem lookup_put_other (h : other ≠ key) : (st.put fails key body).2.lookup other = st.lookup other := by
  unfold put
  split
  · rfl
  · exact lookup_insert_other h

theorem put_error {e : AppError} (h : (st.put fails key body).1 = .error e) : (st.put fails key body).2 = st := by
  unfold put at h ⊢
  split at h
  · next hf => simp [hf]
  · cases h

/-- Only what was asked to be deleted may be gone. -/
theorem lookup_deleteMany_other {keys : List String} (h : other ∉ keys) {n : Nat} :
    (st.deleteMany fails keys n).2.lookup other = st.lookup other := by
  induction keys generalizing st n with
  | nil => rfl
  | cons k ks ih =>
    unfold deleteMany
    split
    · rfl
    · rw [ih fun hm => h (List.mem_cons_of_mem _ hm)]
      exact lookup_remove_other fun hk => h (by simp [hk])

/-- The keys before the first that fails are gone; the others stay. -/
theorem lookup_deleteMany {keys : List String} {n : Nat} : (st.deleteMany fails keys n).2.lookup key =
    if key ∈ keys.takeWhile (fun k => !fails k) then none else st.lookup key := by
  induction keys generalizing st n with
  | nil => simp [deleteMany]
  | cons k ks ih =>
    unfold deleteMany
    cases hk : fails k with
    | true => simp [hk]
    | false =>
      simp only [Bool.false_eq_true, if_false, ih, hk, List.takeWhile_cons, Bool.not_false, if_true, List.mem_cons]
      by_cases hkey : key = k
      · simp [hkey, lookup_remove_self]
      · simp [hkey, lookup_remove_other hkey]

end ObjectStore
end DataApi
