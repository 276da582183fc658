/-
The tag in a 412: what a client gets when it repeats the request with the tag
that the refusal named.
-/
import DataApi.Outcomes
import DataApi.Rules

namespace DataApi.UsableTags

open Relational ReadCommitted Resumption Handler

/-! ## The writes that take an expected tag -/

inductive Update
  | patch (rt : ResourceTable) (id : Uuid) (body : Uniform.PatchInput)
  | merge (sessionId : Uuid) (body : Json)

def Update.run : Update → Option ETag → Handler Unit
  | .patch rt id body, expected => (fun _ => ()) <$> Uniform.patch rt id expected body
  | .merge sid body, expected => (fun _ => ()) <$> Metadata.shallowMerge sid expected body

/-- The answer, and the state it leaves. -/
def attempt (u : Update) (expected : Option ETag) (env : Nat → Env) (s : Moment) : Except AppError Unit × Moment :=
  solo env 0 { s with tx := none } (u.run expected).run

/-- Whenever the request is refused with the tag `c`, repeating it with `c`
right after is not. -/
def Usable (u : Update) (s : Moment) : Prop :=
  ∀ expected env c, (attempt u expected env s).1 = .error (.preconditionFailed c) →
    ∀ env' c', (attempt u (some c) env' (attempt u expected env s).2).1 ≠ .error (.preconditionFailed c')

/-- A patch finds its row or answers 404; a merge may find no row. -/
def HasTag : Update → Db → Prop
  | .patch _ _ _, _ => True
  | .merge sid _, db => ∃ m ∈ metadataT.rows db, m.sessionId = sid

/-! ## Refusals -/

section
variable {α β : Type} {env : Nat → Env} {n : Nat} {tx : Option (Tx Row Key Env)} {db : Db} {w : World}
  {expected : Option ETag} {names : ETag → Prop}

/-- A 412 changes nothing, and the tag it names is not the one given. -/
def Tagged (expected : Option ETag) (names : ETag → Prop) (db : Db) (a : Except AppError β) (s : Moment) : Prop :=
  ∀ c, a = .error (.preconditionFailed c) → s.db = db ∧ names c ∧ ∃ x, expected = some x ∧ x ≠ c

theorem Tagged.other {e : AppError} {s : Moment} (he : ∀ c, e ≠ .preconditionFailed c) :
    Tagged expected names db (.error e : Except AppError β) s := by
  intro c h
  exact absurd (Except.error.inj h) (he c)

theorem Tagged.database {err : DbError Key Uniq} {s : Moment} :
    Tagged expected names db (.error (.database err) : Except AppError β) s := .other fun _ h => by cases h

theorem Tagged.refused {t : ETag} (hc : expected.any (· ≠ t) = true) (ht : names t) :
    Tagged expected names db (.error (.preconditionFailed t) : Except AppError β) ⟨tx, db, w⟩ := by
  rintro c h
  cases h
  obtain ⟨x, hx, hne⟩ := (Option.any_eq_true _ _).1 hc
  exact ⟨rfl, ht, x, hx, by simpa using hne⟩

theorem parsePseudo_error {x : Option String} {e : AppError} (h : Uniform.parsePseudo x = .error e) : e = .invalidPseudoId := by
  cases x with
  | none => cases h
  | some s =>
    simp only [Uniform.parsePseudo, PseudoId.new] at h
    split at h
    · cases h
    · next e' _ =>
      cases e'
      exact (Except.error.inj h).symm

theorem rowFromPg_error {r : UniformPgRow} {e : AppError} (h : Uniform.rowFromPg r = .error e) : e = .invalidPseudoId := by
  rcases bind_error h with h | ⟨p, -, h⟩
  · exact parsePseudo_error h
  · rcases bind_error h with h | ⟨a, -, h⟩
    · exact parsePseudo_error h
    · cases h

theorem mergeShallow_error {base patch : Json} {e : AppError} (h : Metadata.mergeShallow base patch = .error e) :
    ∃ msg, e = .badRequest msg := by
  cases base <;> first
    | exact ⟨_, (Except.error.inj h).symm⟩
    | (cases patch <;> first
        | exact ⟨_, (Except.error.inj h).symm⟩
        | cases h)

theorem patch_tagged (rt : ResourceTable) (id : Uuid) (body : Uniform.PatchInput) :
    Ends env 0 ⟨none, db, w⟩ (Uniform.patch rt id expected body)
      (Tagged expected (fun c => (((uniformT rt).rows db).find? (Uniform.byId id)).map (fun r => ⟨r.etag⟩) = some c) db) := by
  refine Ends.begin (fun _ => .database) fun _ => ?_
  rw [Uniform.found]
  simp only [bind_assoc]
  refine Ends.fetchOptional_tx (fun _ _ => .database) fun rows ws hlock => ?_
  obtain ⟨hfind, rfl⟩ := forUpdate_answer hlock
  rw [hfind, applyAll_nil]
  cases hrow : ((uniformT rt).rows db).find? (Uniform.byId id) with
  | none => exact .other fun _ h => by cases h
  | some r =>
    refine Ends.ofResult (fun e he => ?_) fun u hu => ?_
    · rw [rowFromPg_error he]
      exact .other fun _ h => by cases h
    · refine Ends.refuseIf (fun hc => .refused hc ?_) fun _ => ?_
      · obtain ⟨p, -, hu⟩ := bind_ok hu
        obtain ⟨a, -, hu⟩ := bind_ok hu
        obtain rfl := Except.ok.inj hu
        rfl
      · refine Ends.fetchOne_tx (fun _ _ => .database) (fun _ _ _ _ => .database) fun _ _ pgRow _ _ => ?_
        refine Ends.ofResult (fun e he => ?_) fun _ _ => ?_
        · rw [rowFromPg_error he]
          exact .other fun _ h => by cases h
        · refine Ends.commit (fun _ => .database) fun _ c h => ?_
          cases h

/-- What `shallow_merge` does once it has a tag to compare with. -/
def compared (sid : Uuid) (expected : Option ETag) (body base : Json) (t : ETag) : Handler MetadataBlob := do
  refuseIf (expected.any (· ≠ t)) (.preconditionFailed t)
  let merged ← ofResult (Metadata.mergeShallow base body)
  let etag ← newEtag
  let row ← fetchOne .tx metadataT (Metadata.upsertSql sid merged etag)
  commit
  return row

theorem shallowMerge_eq (sid : Uuid) (body : Json) : Metadata.shallowMerge sid expected body = (do
    begin
    let existing ← fetchOptional .tx metadataT (Metadata.lockSql sid)
    let (base, t) ← Metadata.current existing
    compared sid expected body base t) := rfl

theorem compared_tagged {sid : Uuid} {base body : Json} {t : ETag} {b : Env} {vs : List (Write Row Key)} (ht : names t) :
    Ends env n ⟨some ⟨b, vs⟩, db, w⟩ (compared sid expected body base t) (Tagged expected names db) := by
  refine Ends.refuseIf (fun hc => .refused hc ht) fun _ => ?_
  refine Ends.ofResult (fun e he => ?_) fun merged _ => ?_
  · obtain ⟨msg, rfl⟩ := mergeShallow_error he
    exact .other fun _ h => by cases h
  · refine Ends.fetchOne_tx (fun _ _ => .database) (fun _ _ _ _ => .database) fun _ _ _ _ _ => ?_
    refine Ends.commit (fun _ => .database) fun _ c h => ?_
    cases h

theorem merge_tagged (sid : Uuid) (body : Json) : Ends env 0 ⟨none, db, w⟩ (Metadata.shallowMerge sid expected body)
    (Tagged expected (fun c => ∀ m, (metadataT.rows db).find? (Metadata.byId sid) = some m → m.etag = c) db) := by
  refine Ends.begin (fun _ => .database) fun _ => ?_
  refine Ends.fetchOptional_tx (fun _ _ => .database) fun rows ws hlock => ?_
  obtain ⟨hfind, rfl⟩ := forUpdate_answer hlock
  rw [hfind, applyAll_nil]
  cases (metadataT.rows db).find? (Metadata.byId sid) with
  | none => exact compared_tagged (n := 3) (t := (env 2).etag) fun m hm => by cases hm
  | some r => exact compared_tagged (n := 2) (t := r.etag) fun m hm => by cases hm; rfl

/-- Without a row, a merge compares with the tag it draws. -/
theorem merge_drawn {sid : Uuid} {body : Json} (hnone : (metadataT.rows db).find? (Metadata.byId sid) = none)
    (hf : ∀ n, (env n).fails = false) {x : ETag} (hx : x ≠ (env 2).etag) :
    Ends env 0 ⟨none, db, w⟩ (Metadata.shallowMerge sid (some x) body)
      fun a s => a = .error (.preconditionFailed (env 2).etag) ∧ s.db = db := by
  have hrefused : Ends env 3 ⟨some ⟨env 0, []⟩, db, w⟩ (compared sid (some x) body (.obj []) (env 2).etag)
      fun a s => a = .error (.preconditionFailed (env 2).etag) ∧ s.db = db := by
    refine Ends.refuseIf (fun _ => ⟨rfl, rfl⟩) fun hc => ?_
    simp [hx] at hc
  refine Ends.begin (fun h => ?_) fun _ => ?_
  · rw [hf 0] at h
    cases h
  · refine Ends.fetchOptional_tx (fun err h => ?_) fun rows ws hlock => ?_
    · rw [Metadata.lockSql, answer_forUpdate (hf 1)] at h
      cases h
    · obtain ⟨hfind, rfl⟩ := forUpdate_answer hlock
      rw [hfind, applyAll_nil, hnone]
      exact hrefused

end

/-! ## Repeating a refused request -/

/-- The tag a refusal names is the one stored, where there is one. -/
theorem attempt_tagged (u : Update) (db : Db) (h : HasTag u db) : ∃ tag : Option ETag, ∀ expected env s, s.db = db →
    Tagged expected (fun c => tag = some c) db (attempt u expected env s).1 (attempt u expected env s).2 := by
  have hmap : ∀ {α : Type} {expected names} {a : Except AppError α} {s : Moment}, Tagged expected names db a s →
      Tagged expected names db (a.map fun _ => ()) s := by
    intro α expected names a s h c hc
    cases a with
    | error e => exact h c (congrArg _ (Except.error.inj hc))
    | ok x => cases hc
  cases u with
  | patch rt id body =>
    refine ⟨(((uniformT rt).rows db).find? (Uniform.byId id)).map fun r => ⟨r.etag⟩, fun expected env s hs => ?_⟩
    obtain ⟨tx, db', w⟩ := s
    obtain rfl : db = db' := hs.symm
    exact ends_map.2 ((patch_tagged rt id body).mono fun _ _ => hmap)
  | merge sid body =>
    obtain ⟨m, hm, hid⟩ := h
    have hid : Metadata.byId sid m = true := by simpa [Metadata.byId] using hid
    obtain ⟨m, hfind⟩ := Option.isSome_iff_exists.1 (List.find?_isSome.2 ⟨m, hm, hid⟩)
    refine ⟨some m.etag, fun expected env s hs => ?_⟩
    obtain ⟨tx, db', w⟩ := s
    obtain rfl : db = db' := hs.symm
    refine ends_map.2 ((merge_tagged sid body).mono fun _ _ h => hmap fun c hc => ?_)
    obtain ⟨hdb, hnames, hne⟩ := h c hc
    exact ⟨hdb, congrArg some (hnames m hfind), hne⟩

/-- A 412 names a tag that the next request can use, except in a merge into a
session without metadata: its tag is made up on the spot. -/
theorem usable_iff (u : Update) (s : Moment) : Usable u s ↔ HasTag u s.db := by
  constructor
  · intro husable
    cases u with
    | patch rt id body => trivial
    | merge sid body =>
      by_contra hno
      have hnone : (metadataT.rows s.db).find? (Metadata.byId sid) = none := by
        refine List.find?_eq_none.2 fun m hm hid => hno ⟨m, hm, ?_⟩
        simpa [Metadata.byId] using hid
      have hdrawn : ∀ {s' : Moment}, s'.db = s.db → ∀ x t, x ≠ t →
          (attempt (.merge sid body) (some x) (fun n => { Sample.env n with etag := t }) s').1 =
              .error (.preconditionFailed t) ∧
            (attempt (.merge sid body) (some x) (fun n => { Sample.env n with etag := t }) s').2.db = s.db := by
        intro s' hs' x t hx
        have hends : Ends (fun n => { Sample.env n with etag := t }) 0 ⟨none, s'.db, s'.world⟩
            (Metadata.shallowMerge sid (some x) body) fun a s => a = .error (.preconditionFailed t) ∧ s.db = s'.db :=
          merge_drawn (by rw [hs']; exact hnone) (fun _ => rfl) hx
        have hmapped : Ends (fun n => { Sample.env n with etag := t }) 0 ⟨none, s'.db, s'.world⟩
            (Update.run (.merge sid body) (some x)) fun a s => a = .error (.preconditionFailed t) ∧ s.db = s'.db :=
          ends_map.2 (hends.mono fun a s h => ⟨by rw [h.1]; rfl, h.2⟩)
        rw [← hs']
        exact hmapped
      obtain ⟨hfirst, hdb⟩ := hdrawn rfl ⟨"a"⟩ ⟨"b"⟩ (by decide)
      exact husable _ _ _ hfirst _ _ (hdrawn hdb ⟨"b"⟩ ⟨"c"⟩ (by decide)).1
  · intro hu expected env c hc env' c' hc'
    obtain ⟨tag, htag⟩ := attempt_tagged u s.db hu
    obtain ⟨hdb, hstored, -⟩ := htag expected env s rfl c hc
    obtain ⟨-, hstored', x, hx, hne⟩ := htag (some c) env' _ hdb c' hc'
    rw [hstored] at hstored'
    obtain rfl := Option.some.inj hstored'
    exact hne (Option.some.inj hx).symm

/-- A client draws `etag-2`, answers with it, and is told another tag. -/
def sampleEnv : Nat → Env := fun n => Sample.env (n + 10)

theorem tag_made_up : ∃ s : Moment, Row.session Sample.session ∈ s.db ∧
    (attempt (.merge Sample.sessionId (.obj [])) (some ⟨"stale"⟩) Sample.env s).1 =
      .error (.preconditionFailed ⟨"etag-2"⟩) ∧
    (attempt (.merge Sample.sessionId (.obj [])) (some ⟨"etag-2"⟩) sampleEnv
      (attempt (.merge Sample.sessionId (.obj [])) (some ⟨"stale"⟩) Sample.env s).2).1 =
      .error (.preconditionFailed ⟨"etag-12"⟩) ∧
    ¬Usable (.merge Sample.sessionId (.obj [])) s := by
  have hfirst : (attempt (.merge Sample.sessionId (.obj [])) (some ⟨"stale"⟩) Sample.env
      ⟨none, [.session Sample.session], Sample.world⟩).1 = .error (.preconditionFailed ⟨"etag-2"⟩) := by decide +kernel
  have hagain : (attempt (.merge Sample.sessionId (.obj [])) (some ⟨"etag-2"⟩) sampleEnv
      (attempt (.merge Sample.sessionId (.obj [])) (some ⟨"stale"⟩) Sample.env
        ⟨none, [.session Sample.session], Sample.world⟩).2).1 = .error (.preconditionFailed ⟨"etag-12"⟩) := by
    decide +kernel
  exact ⟨_, List.mem_singleton.2 rfl, hfirst, hagain, fun h => h _ _ _ hfirst _ _ hagain⟩

end DataApi.UsableTags
