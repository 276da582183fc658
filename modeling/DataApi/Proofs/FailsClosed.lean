/-
The `If-Match` header of a conditional write, byte by byte: where it is not
text, both handlers take it for absent and write unconditionally.
-/
import DataApi.Proofs.EtagHistory
import DataApi.Proofs.MetadataMerge
import DataApi.Proofs.UsableTags
import DataApi.Verdicts

namespace DataApi.FailsClosed

open Relational ReadCommitted Resumption Handler

/-! ## The bytes of a header -/

/-- The bytes of a text. -/
def textBytes (s : String) : Bytes := s.toList.flatMap String.utf8EncodeChar

/-- The value without the double quotes around it. -/
def stripped (v : Bytes) : Bytes :=
  let q := fun b : UInt8 => b == 34
  ((v.dropWhile q).reverse.dropWhile q).reverse

theorem textBytes_inj {s t : String} (h : textBytes s = textBytes t) : s = t := by
  have hbytes : s.toByteArray = t.toByteArray := by
    rw [← String.ofList_toList (s := s), ← String.ofList_toList (s := t), String.toByteArray_ofList, String.toByteArray_ofList,
      List.utf8Encode, List.utf8Encode]
    exact congrArg _ h
  exact String.toByteArray_inj.1 hbytes

/-- A byte of a text header, as the character it is. -/
def toChar (b : UInt8) : Char := Char.ofNat b.toNat

theorem toChar_ascii (b : UInt8) (h : b < 128) : String.utf8EncodeChar (toChar b) = [b] := by
  have hall : ∀ n : Fin 256, UInt8.ofFin n < 128 → String.utf8EncodeChar (toChar (UInt8.ofFin n)) = [UInt8.ofFin n] := by
    decide +kernel
  exact hall b.toFin h

theorem toChar_quote (b : UInt8) : decide (toChar b = '"') = (b == 34) := by
  have hall : ∀ n : Fin 256, decide (toChar (UInt8.ofFin n) = '"') = (UInt8.ofFin n == 34) := by decide +kernel
  exact hall b.toFin

theorem textBytes_ascii {v : Bytes} (h : ∀ b ∈ v, b < 128) : textBytes (String.ofList (v.map toChar)) = v := by
  rw [textBytes, String.toList_ofList]
  induction v with
  | nil => rfl
  | cons b v ih =>
    rw [List.map_cons, List.flatMap_cons, toChar_ascii b (h b (by simp)), ih fun x hx => h x (by simp [hx])]
    rfl

theorem trimQuotes_map (v : Bytes) : trimQuotes (String.ofList (v.map toChar)) = String.ofList ((stripped v).map toChar) := by
  have hdrop : ∀ v : Bytes, (v.map toChar).dropWhile (fun c => decide (c = '"')) = (v.dropWhile (· == 34)).map toChar := by
    intro v
    rw [List.dropWhile_map]
    congr 2
    funext b
    exact toChar_quote b
  simp only [trimQuotes, stripped, String.toList_ofList, hdrop, ← List.map_reverse]

theorem stripped_sublist (v : Bytes) : ∀ b ∈ stripped v, b ∈ v := by
  intro b hb
  have h := List.mem_reverse.1 hb
  have h := (List.dropWhile_sublist _).subset h
  exact (List.dropWhile_sublist _).subset (List.mem_reverse.1 h)

/-- A header that is text asks for the tag its stripped bytes spell. -/
theorem stripped_tag {v : Bytes} {s : String} (hs : headerStr v = some s) (t : String) :
    trimQuotes s = t ↔ stripped v = textBytes t := by
  unfold headerStr at hs
  split at hs
  · next hall =>
    obtain rfl := Option.some.inj hs
    have hascii : ∀ b ∈ stripped v, b < 128 := by
      intro b hb
      have hb := List.all_eq_true.1 hall b (stripped_sublist v b hb)
      simp only [Bool.or_eq_true, Bool.and_eq_true, decide_eq_true_eq] at hb
      rcases hb with ⟨-, hb⟩ | rfl
      · exact UInt8.lt_trans hb (by decide)
      · decide
    have htrim : trimQuotes (String.ofList (v.map toChar)) = String.ofList ((stripped v).map toChar) := trimQuotes_map v
    have hbytes := textBytes_ascii hascii
    constructor
    · intro h
      rw [← h, ← hbytes]
      exact congrArg textBytes htrim.symm
    · intro h
      refine htrim.trans (textBytes_inj ?_)
      rw [hbytes, h]
  · cases hs

/-! ## Segments, beats and scenes -/

section
variable {env : Nat → Env} {n : Nat} {db : Db} {w : World} {rt : ResourceTable} {id : Uuid} {headers : HeaderMap}
  {body : Uniform.PatchInput} {svc : String}

theorem lookup_uniform (rt : ResourceTable) (id : Uuid) (db : Db) :
    lookup (Key.uniform rt id) db = (((uniformT rt).rows db).find? (Uniform.byId id)).map (.uniform rt) := by
  refine lookup_rows (uniformT rt) (fun r => ?_) db
  cases r with
  | uniform rt' r =>
    by_cases hrt : rt' = rt
    · subst hrt
      simp [key, Row.key, Table.is, uniformT, Uniform.byId]
    · simp [key, Row.key, Table.is, uniformT, hrt]
  | _ => simp [key, Row.key, Table.is, uniformT]

theorem lookup_metadata (id : Uuid) (db : Db) :
    lookup (Key.metadata id) db = ((metadataT.rows db).find? (Metadata.byId id)).map .metadata :=
  lookup_rows metadataT key_metadata db

/-- The database takes the patch of `r`: no operation up to the commit fails,
the row reads, and its author column passes the CHECK. -/
structure Patchable (env : Nat → Env) (body : Uniform.PatchInput) (r : UniformPgRow) : Prop where
  works : ∀ n ∈ [0, 1, 3, 4], (env n).fails = false
  reads : EtagHistory.Reads r
  author : ((body.authorUserPseudoId.map (·.raw)).or r.authorUserPseudoId).all isValidPseudoId = true

/-- Otherwise, or with another tag, the patch is refused and changes nothing. -/
theorem patchRow_blocked (hno : ∀ r, ((uniformT rt).rows db).find? (Uniform.byId id) = some r → Patchable env body r →
      (ifMatch headers).any (· ≠ ⟨r.etag⟩) = true) :
    Ends env 0 ⟨none, db, w⟩ (UniformRoutes.patchRow rt svc id headers body)
      fun a s => (∃ e, a = .error e) ∧ s.db = db := by
  rw [UniformRoutes.patchRow, Uniform.patch]
  simp only [bind_assoc]
  refine Ends.begin (fun _ => ⟨⟨_, rfl⟩, rfl⟩) fun h0 => ?_
  rw [Uniform.found]
  simp only [bind_assoc]
  refine Ends.fetchOptional_tx (fun _ _ => ⟨⟨_, rfl⟩, rfl⟩) fun rows ws hlock => ?_
  obtain ⟨hfind, rfl⟩ := forUpdate_answer hlock
  rw [hfind, applyAll_nil]
  cases hrow : ((uniformT rt).rows db).find? (Uniform.byId id) with
  | none => exact ⟨⟨_, rfl⟩, rfl⟩
  | some r =>
    refine Ends.ofResult (fun _ _ => ⟨⟨_, rfl⟩, rfl⟩) fun u hu => ?_
    refine Ends.refuseIf (fun _ => ⟨⟨_, rfl⟩, rfl⟩) fun hc => ?_
    refine ends_outer.2 ?_
    refine Ends.fetchOne_tx (fun _ _ => ⟨⟨_, rfl⟩, rfl⟩) (fun _ _ _ _ => ⟨⟨_, rfl⟩, rfl⟩) fun rows ws pgRow hupdate hx => ?_
    refine Ends.ofResult (fun _ _ => ⟨⟨_, rfl⟩, rfl⟩) fun out _ => ?_
    refine Ends.commit (fun _ => ⟨⟨_, rfl⟩, rfl⟩) fun h4 => ?_
    -- Nothing was refused: the row took the patch after all.
    have hupdate : answer (Uniform.updateSql rt id (Uniform.applyPatch rt body u) body.authorUserPseudoId (env 2).etag)
        (env 0) (env 3) db = .ok (rows, ws) := hupdate
    obtain ⟨hrows, -, hck⟩ := update_answer hupdate
    have hmem := List.mem_of_mem_head? hx
    rw [hrows, List.head?_map, List.head?_filter, hrow] at hx
    obtain rfl := Option.some.inj hx
    have hpatchable : Patchable env body r := by
      refine ⟨?_, ⟨u, hu⟩, hck _ ((uniformT rt).mem_rows.1 hmem)⟩
      simp only [List.mem_cons, List.not_mem_nil, or_false, forall_eq_or_imp, forall_eq]
      exact ⟨h0, (answer_ok hlock).1, (answer_ok hupdate).1, h4⟩
    obtain ⟨-, -, htag⟩ := EtagHistory.rowFromPg_ok hu
    rw [htag, hno r hrow hpatchable] at hc
    cases hc

/-- What follows the commit leaves the rows. -/
theorem patchRow_rest {row : Uniform.UniformRow} :
    Ends env n ⟨none, db, w⟩ (do
      AuditLog.append (UniformRoutes.entry rt svc row.authorUserPseudoId row.sessionId id "patched" none)
      let guildId ← Sessions.guildIdForSession row.sessionId
      let atTs ← utcNow
      send (UniformRoutes.updated atTs { sessionId := row.sessionId, guildId := guildId, id := id } rt)
      return row) fun _ s => Logged db s.db := by
  refine Ends.append (fun _ => Logged.refl db) fun db' hlogged => ?_
  rw [Sessions.guildIdForSession]
  simp only [bind_assoc]
  refine Ends.fetchOptional_pool (fun _ _ => hlogged) fun rows ws hguild => ?_
  obtain ⟨-, rfl⟩ := select_answer hguild
  cases (sessionsT.rows rows).head? with
  | none => exact hlogged
  | some s => exact hlogged

/-- With the tag stored, or none, the row is written: it carries the tag
drawn. -/
theorem patchRow_written (hu : KeysUnique db) {r : UniformPgRow} (hr : ((uniformT rt).rows db).find? (Uniform.byId id) = some r)
    (hp : Patchable env body r) {u : Uniform.UniformRow} (hread : Uniform.rowFromPg r = .ok u)
    (hc : (ifMatch headers).any (· ≠ ⟨r.etag⟩) = false) :
    Ends env 0 ⟨none, db, w⟩ (UniformRoutes.patchRow rt svc id headers body) fun _ s =>
      Logged (Write.apply db (.update (.uniform rt (Uniform.setPatched (Uniform.applyPatch rt body u) body.authorUserPseudoId
        (env 2).etag { env 3 with now := (env 0).now } r)))) s.db := by
  obtain ⟨-, -, htag⟩ := EtagHistory.rowFromPg_ok hread
  have hbyId : ∀ t, Uniform.byId id t = true → key ((uniformT rt).put t) = Key.uniform rt id := by
    intro t ht
    exact congrArg (Key.uniform rt) (by simpa [Uniform.byId] using ht)
  rw [UniformRoutes.patchRow, Uniform.patch]
  simp only [bind_assoc]
  refine Ends.begun (hp.works 0 (by simp)) ?_
  rw [Uniform.found]
  simp only [bind_assoc]
  have hlocked : ((uniformT rt).rows (db.filter ((uniformT rt).is (Uniform.byId id)))).head? = some r := by
    rw [(uniformT rt).rows_filter_is, List.head?_filter, hr]
  refine Ends.fetched_tx (answer_forUpdate (hp.works 1 (by simp))) hlocked ?_
  refine Ends.ofOk hread (Ends.passed (by rw [htag]; exact hc) (ends_outer.2 ?_))
  have hcheck : ∀ e : Env, check ((uniformT rt).put (Uniform.setPatched (Uniform.applyPatch rt body u)
      body.authorUserPseudoId (env 2).etag e r)) = true := fun _ => hp.author
  obtain ⟨out, hout⟩ := hp.reads.patched (hcheck { env 3 with now := (env 0).now })
  refine Ends.fetchedOne_tx (answer_update (hp.works 3 (by simp)) hu hbyId hr (hcheck _)) ((uniformT rt).head_put _) ?_
  exact Ends.ofOk hout (Ends.committed (hp.works 4 (by simp)) patchRow_rest)

/-- Written, the row is found under its key. -/
theorem lookup_written {r : UniformPgRow} (hr : ((uniformT rt).rows db).find? (Uniform.byId id) = some r) {db' : Db}
    {r' : UniformPgRow} (h : Logged (Write.apply db (.update (.uniform rt r'))) db') (hid : r'.id = r.id) :
    lookup (.uniform rt id) db' = some (.uniform rt r') := by
  have hbefore : lookup (.uniform rt id) db = some (.uniform rt r) := by
    rw [lookup_uniform, hr]; rfl
  obtain rfl : r.id = id := (Key.uniform.inj (lookup_mem hbefore).2).2
  rw [h.lookup (by simp [Key.table]), ← hid]
  exact lookup_update (r := Row.uniform rt r') (by rw [← hid] at hbefore; exact hbefore)

/-! ## Metadata -/

theorem upsert_present {b e : Env} (hf : e.fails = false) (hu : KeysUnique db) {m : MetadataBlob}
    (hm : (metadataT.rows db).find? (Metadata.byId id) = some m) (blob : Json) (etag : ETag) :
    answer (Metadata.upsertSql id blob etag) b e db =
      .ok ([.metadata (Metadata.overwrite blob etag { e with now := b.now } m)],
        [.update (.metadata (Metadata.overwrite blob etag { e with now := b.now } m))]) := by
  have hlookup : lookup (Key.metadata id) db = some (.metadata m) := by
    rw [lookup_metadata, hm]; rfl
  have hmem := lookup_mem hlookup
  have hrow : ∀ arbiter : Lockable Key Uniq → Bool, (∀ k, arbiter (.pk k) = true) →
      (insertRow db [] (.metadata (Metadata.freshRow id blob etag { e with now := b.now }))
        (.doUpdate arbiter (metadataT.setter (Metadata.overwrite blob etag { e with now := b.now })))).result =
      .ok ([.metadata (Metadata.overwrite blob etag { e with now := b.now } m)],
        [.update (.metadata (Metadata.overwrite blob etag { e with now := b.now } m))]) := by
    intro arbiter ha
    cases hc : clash db ((slots (Row.metadata (Metadata.freshRow id blob etag { e with now := b.now }))).filter arbiter) with
    | none => exact absurd (pk_mem_slots.2 hmem.2) (clash_none hc (List.mem_filter.2 ⟨List.mem_cons_self, ha _⟩) hmem.1)
    | some x =>
      obtain ⟨l, x⟩ := x
      obtain ⟨hl, hx, hlx⟩ := clash_some hc
      obtain rfl := MetadataMerge.slots_metadata (List.mem_filter.1 hl).1
      have hxm : x = .metadata m := Option.some.inj ((hu.lookup_iff.2 ⟨hx, pk_mem_slots.1 hlx⟩).symm.trans hlookup)
      subst hxm
      exact insertRow_taken rfl hc (by simp) rfl
  rw [answer, if_neg (by simp [hf])]
  exact insertRows_one (hrow _ fun _ => rfl)

theorem upsert_absent {b e : Env} (hf : e.fails = false) (hnone : (metadataT.rows db).find? (Metadata.byId id) = none)
    (hs : Present (Key.session id) db) (blob : Json) (etag : ETag) : answer (Metadata.upsertSql id blob etag) b e db =
      .ok ([.metadata (Metadata.freshRow id blob etag { e with now := b.now })],
        [.insert (.metadata (Metadata.freshRow id blob etag { e with now := b.now }))]) := by
  have hlookup : lookup (Key.metadata id) db = none := by
    rw [lookup_metadata, hnone]; rfl
  have hrow : ∀ oc, (insertRow db [] (.metadata (Metadata.freshRow id blob etag { e with now := b.now })) oc).result =
      .ok ([.metadata (Metadata.freshRow id blob etag { e with now := b.now })],
        [.insert (.metadata (Metadata.freshRow id blob etag { e with now := b.now }))]) := by
    refine fun oc => insertRow_free rfl (fun l hl x hx hlx => ?_) fun k hk => ?_
    · obtain rfl := MetadataMerge.slots_metadata hl
      exact lookup_none.1 hlookup x hx (pk_mem_slots.1 hlx)
    · rw [List.mem_singleton.1 hk]
      exact hs
  rw [answer, if_neg (by simp [hf])]
  exact insertRows_one (hrow _)

/-- Without a row of its own, the upsert needs the session. -/
theorem upsert_absent_ok {b e : Env} {blob : Json} {etag : ETag} {rows : Db} {ws : List (Write Row Key)}
    (hnone : (metadataT.rows db).find? (Metadata.byId id) = none)
    (h : answer (Metadata.upsertSql id blob etag) b e db = .ok (rows, ws)) : Present (Key.session id) db := by
  have hlookup : lookup (Key.metadata id) db = none := by
    rw [lookup_metadata, hnone]; rfl
  obtain ⟨-, ⟨-, -, -, hrefs, -⟩ | ⟨-, -, _, hoc, -⟩ | ⟨a, set, l, x, -, hc, -⟩⟩ :=
    insertRow_cases (insertRows_singleton (answer_ok h).2)
  · exact hrefs (Key.session id) (List.mem_singleton.2 rfl)
  · cases hoc
  · obtain ⟨hl, hx, hlx⟩ := clash_some hc
    obtain rfl := MetadataMerge.slots_metadata (List.mem_filter.1 hl).1
    exact absurd (pk_mem_slots.1 hlx) (lookup_none.1 hlookup x hx)

/-- The blob a merge starts from. -/
def baseOf : Option MetadataBlob → Json
  | some m => m.blob
  | none => .obj []

/-- A merge without a row draws one tag more. -/
def extra : Option MetadataBlob → Nat
  | some _ => 0
  | none => 1

/-- The database takes the merge into `found`: no operation up to the commit
fails, the bodies merge, and a new row has its session. -/
structure Mergeable (env : Nat → Env) (db : Db) (id : Uuid) (body : Json) (found : Option MetadataBlob) : Prop where
  works : ∀ n ∈ [0, 1, 3 + extra found, 4 + extra found], (env n).fails = false
  session : found = none → Present (Key.session id) db
  merges : ∃ merged, Metadata.mergeShallow (baseOf found) body = .ok merged

/-- The tag a merge compares with. -/
def tagFor (env : Nat → Env) : Option MetadataBlob → ETag
  | some m => m.etag
  | none => (env 2).etag

variable {b : Env} {body : Json} {found : Option MetadataBlob}

theorem compared_blocked {β : Type} {expected : Option ETag} {base : Json} {t : ETag} {f : MetadataBlob → Handler β}
    (h : ∀ merged etag rows ws, Metadata.mergeShallow base body = .ok merged →
      answer (Metadata.upsertSql id merged etag) b (env (n + 1)) db = .ok (rows, ws) → (env (n + 2)).fails = false →
      expected.any (· ≠ t) = true) :
    Ends env n ⟨some ⟨b, []⟩, db, w⟩ (UsableTags.compared id expected body base t >>= f)
      fun a s => (∃ e, a = .error e) ∧ s.db = db := by
  rw [UsableTags.compared]
  simp only [bind_assoc]
  refine Ends.refuseIf (fun _ => ⟨⟨_, rfl⟩, rfl⟩) fun hc => ?_
  refine Ends.ofResult (fun _ _ => ⟨⟨_, rfl⟩, rfl⟩) fun merged hmerged => ends_outer.2 ?_
  refine Ends.fetchOne_tx (fun _ _ => ⟨⟨_, rfl⟩, rfl⟩) (fun _ _ _ _ => ⟨⟨_, rfl⟩, rfl⟩) fun rows ws row hupsert _ => ?_
  refine Ends.commit (fun _ => ⟨⟨_, rfl⟩, rfl⟩) fun hcommit => ?_
  rw [h merged _ rows ws hmerged hupsert hcommit] at hc
  cases hc

theorem shallowPatch_blocked (hfound : (metadataT.rows db).find? (Metadata.byId id) = found)
    (hno : Mergeable env db id body found → (ifMatch headers).any (· ≠ tagFor env found) = true) :
    Ends env 0 ⟨none, db, w⟩ (MetadataRoutes.shallowPatch svc id headers body)
      fun a s => (∃ e, a = .error e) ∧ s.db = db := by
  rw [MetadataRoutes.shallowPatch, UsableTags.shallowMerge_eq]
  simp only [bind_assoc]
  refine Ends.begin (fun _ => ⟨⟨_, rfl⟩, rfl⟩) fun h0 => ?_
  refine Ends.fetchOptional_tx (fun _ _ => ⟨⟨_, rfl⟩, rfl⟩) fun rows ws hlock => ?_
  obtain ⟨hfind, rfl⟩ := forUpdate_answer hlock
  rw [hfind, applyAll_nil, hfound]
  have h1 := (answer_ok hlock).1
  have hmergeable : ∀ {merged etag rows ws}, Metadata.mergeShallow (baseOf found) body = .ok merged →
      answer (Metadata.upsertSql id merged etag) (env 0) (env (3 + extra found)) db = .ok (rows, ws) →
      (env (4 + extra found)).fails = false → Mergeable env db id body found := by
    intro merged etag rows ws hmerged hupsert hcommit
    refine ⟨?_, fun hnone => upsert_absent_ok (hfound.trans hnone) hupsert, merged, hmerged⟩
    simp only [List.mem_cons, List.not_mem_nil, or_false, forall_eq_or_imp, forall_eq]
    exact ⟨h0, h1, (answer_ok hupsert).1, hcommit⟩
  cases found with
  | none => exact compared_blocked (n := 3) fun merged etag rows ws hm hu hcommit => hno (hmergeable hm hu hcommit)
  | some m => exact compared_blocked (n := 2) fun merged etag rows ws hm hu hcommit => hno (hmergeable hm hu hcommit)

/-- What follows the commit leaves the blob. -/
theorem shallowPatch_rest {row : MetadataBlob} {k : Key} (hk : k.table ≠ .audit) :
    Ends env n ⟨none, db, w⟩ (do
      AuditLog.append (MetadataRoutes.entry svc id "merged" row.etag)
      return row) fun _ s => lookup k s.db = lookup k db := by
  rw [AuditLog.append, bind_assoc]
  refine Ends.execute_pool (fun _ _ => rfl) fun rows ws happend => ?_
  refine lookup_applyAll_other (fun v hv heq => hk ?_) db
  rw [← heq]
  exact AuditLog.appendSql_writes _ _ _ _ _ _ _ (answer_ok happend).2 v hv

/-- With the tag compared with, or none, the blob is written: it carries the
tag drawn. -/
theorem compared_written {base : Json} {t : ETag} {expected : Option ETag} (hu : KeysUnique db)
    (hc : expected.any (· ≠ t) = false) (hm : ∃ merged, Metadata.mergeShallow base body = .ok merged)
    (hs : (metadataT.rows db).find? (Metadata.byId id) = none → Present (Key.session id) db)
    (h1 : (env (n + 1)).fails = false) (h2 : (env (n + 2)).fails = false) :
    Ends env n ⟨some ⟨b, []⟩, db, w⟩ (do
      let row ← UsableTags.compared id expected body base t
      AuditLog.append (MetadataRoutes.entry svc id "merged" row.etag)
      return row) fun _ s => ∃ m, lookup (Key.metadata id) s.db = some (.metadata m) ∧ m.etag = (env n).etag := by
  obtain ⟨merged, hm⟩ := hm
  rw [UsableTags.compared]
  simp only [bind_assoc]
  refine Ends.passed hc (Ends.ofOk hm (ends_outer.2 ?_))
  cases hfound : (metadataT.rows db).find? (Metadata.byId id) with
  | none =>
    have hnone : lookup (Key.metadata id) db = none := by
      rw [lookup_metadata, hfound]; rfl
    refine Ends.fetchedOne_tx (upsert_absent h1 hfound (hs hfound) merged _) (metadataT.head_put _) ?_
    refine Ends.committed h2 (Ends.mono (shallowPatch_rest (k := .metadata id) (by simp [Key.table])) fun _ s h => ?_)
    exact ⟨_, h.trans (lookup_insert (r := Row.metadata (Metadata.freshRow id merged _ _)) hnone), rfl⟩
  | some m =>
    have hsome : lookup (Key.metadata id) db = some (.metadata m) := by
      rw [lookup_metadata, hfound]; rfl
    obtain rfl : m.sessionId = id := Key.metadata.inj (lookup_mem hsome).2
    refine Ends.fetchedOne_tx (upsert_present h1 hu hfound merged _) (metadataT.head_put _) ?_
    refine Ends.committed h2 (Ends.mono (shallowPatch_rest (k := .metadata m.sessionId) (by simp [Key.table])) fun _ s h => ?_)
    exact ⟨_, h.trans (lookup_update (r := Row.metadata (Metadata.overwrite merged _ _ m)) hsome), rfl⟩

theorem shallowPatch_written (hu : KeysUnique db) (hfound : (metadataT.rows db).find? (Metadata.byId id) = found)
    (hm : Mergeable env db id body found) (hc : (ifMatch headers).any (· ≠ tagFor env found) = false) :
    Ends env 0 ⟨none, db, w⟩ (MetadataRoutes.shallowPatch svc id headers body) fun _ s =>
      ∃ m, lookup (Key.metadata id) s.db = some (.metadata m) ∧ m.etag = (env (2 + extra found)).etag := by
  rw [MetadataRoutes.shallowPatch, UsableTags.shallowMerge_eq]
  simp only [bind_assoc]
  have hlocked : (metadataT.rows (db.filter (metadataT.is (Metadata.byId id)))).head? = found := by
    rw [metadataT.rows_filter_is, List.head?_filter, hfound]
  refine Ends.begun (hm.works 0 (by simp)) (Ends.fetched_tx (answer_forUpdate (hm.works 1 (by simp))) hlocked ?_)
  have h3 := hm.works _ (List.mem_cons_of_mem _ (List.mem_cons_of_mem _ List.mem_cons_self))
  have h4 := hm.works _ (List.mem_cons_of_mem _ (List.mem_cons_of_mem _ (List.mem_cons_of_mem _ List.mem_cons_self)))
  have hsession := fun hnone => hm.session (hfound.symm.trans hnone)
  cases found with
  | none => exact compared_written (n := 3) hu hc hm.merges hsession h3 h4
  | some m => exact compared_written (n := 2) hu hc hm.merges hsession h3 h4

end

/-! ## Fails closed -/

/-- The key of the row or blob a conditional write is about, and its headers. -/
def subject : Request → Option (Key × HeaderMap)
  | .patchRow rt _ id headers _ => some (.uniform rt id, headers)
  | .shallowPatch _ id headers _ => some (.metadata id, headers)
  | _ => none

def tagOf : Row → Option ETag
  | .uniform _ r => some ⟨r.etag⟩
  | .metadata m => some m.etag
  | _ => none

/-- The tag stored under a key. -/
def storedTag (k : Key) (db : Db) : Option ETag := (lookup k db).bind tagOf

/-- The header value, its quotes stripped, is the stored tag. -/
def Names (v : Bytes) (k : Key) (db : Db) : Prop := ∃ t, storedTag k db = some t ∧ stripped v = textBytes t.raw

/-- With any other value the call is refused, and the row stays as it is. -/
def Closed (st : AppState) (x : Call) (sv : Sv Unit) (k : Key) (v : Bytes) : Prop :=
  ¬Names v k sv.db → (∃ e, (serve st x sv).1 = .error e) ∧ lookup k (serve st x sv).2.db = lookup k sv.db

/-- The database would take the write, were there no header. -/
def Writable (x : Call) (db : Db) : Prop :=
  match x.request with
  | .patchRow rt _ id _ body => ∃ r, ((uniformT rt).rows db).find? (Uniform.byId id) = some r ∧ Patchable x.env body r
  | .shallowPatch _ id _ body => Mergeable x.env db id body ((metadataT.rows db).find? (Metadata.byId id))
  | _ => False

/-- No tag the call draws is the stored one, or the one the header spells. -/
def Fresh (x : Call) (k : Key) (v : Bytes) (db : Db) : Prop :=
  ∀ n, storedTag k db ≠ some (x.env n).etag ∧ stripped v ≠ textBytes (x.env n).etag.raw

theorem ifMatch_text {headers : HeaderMap} {v : Bytes} (hv : headers.get "if-match" = some v) {s : String}
    (hs : headerStr v = some s) : ifMatch headers = some ⟨trimQuotes s⟩ := by
  rw [ifMatch, hv, Option.bind_some, hs]; rfl

theorem ifMatch_other {headers : HeaderMap} {v : Bytes} (hv : headers.get "if-match" = some v)
    (hs : headerStr v = none) : ifMatch headers = none := by
  rw [ifMatch, hv, Option.bind_some, hs]; rfl

/-- A text that does not spell the tag compared with is refused. -/
theorem refuses {headers : HeaderMap} {v : Bytes} (hv : headers.get "if-match" = some v) (hs : (headerStr v).isSome = true)
    {t : ETag} (hne : stripped v ≠ textBytes t.raw) : (ifMatch headers).any (· ≠ t) = true := by
  obtain ⟨s, hs⟩ := Option.isSome_iff_exists.1 hs
  rw [ifMatch_text hv hs]
  have htag : trimQuotes s ≠ t.raw := fun h => hne ((stripped_tag hs t.raw).1 h)
  have hne : (⟨trimQuotes s⟩ : ETag) ≠ t := fun h => htag (congrArg ETag.raw h)
  simpa using hne

/-- A call through its handler, with what the handler ends in. -/
theorem closed_of_ends {st : AppState} {x : Call} {sv : Sv Unit} {k : Key} {v : Bytes}
    (h : Ends x.env 0 ⟨none, sv.db, sv.world⟩ (handle st x.request) fun a s => (∃ e, a = .error e) ∧ s.db = sv.db) :
    Closed st x sv k v := by
  intro _
  have hserve := (serve_ends (Q := fun a db _ => (∃ e, a = .error e) ∧ db = sv.db)).2 h
  exact ⟨hserve.1, congrArg (lookup k) hserve.2⟩

theorem refused_map {α β : Type} {f : α → β} {a : Except AppError α} {s : Moment} {db : Db}
    (h : (∃ e, a = .error e) ∧ s.db = db) : (∃ e, a.map f = .error e) ∧ s.db = db := by
  obtain ⟨⟨e, rfl⟩, hdb⟩ := h
  exact ⟨⟨e, rfl⟩, hdb⟩

/-- A value that is not text, and that does not spell the stored tag, lets a
patch through. -/
theorem patchRow_closed_iff {st : AppState} {x : Call} {sv : Sv Unit} {rt : ResourceTable} {svc : String} {id : Uuid}
    {headers : HeaderMap} {body : Uniform.PatchInput} {v : Bytes} (hx : x.request = .patchRow rt svc id headers body)
    (hv : headers.get "if-match" = some v) (hu : KeysUnique sv.db) (hfresh : Fresh x (.uniform rt id) v sv.db)
    (hnames : ¬Names v (.uniform rt id) sv.db) :
    Closed st x sv (.uniform rt id) v ↔ (headerStr v).isSome = true ∨ ¬Writable x sv.db := by
  have hrow : ∀ r, ((uniformT rt).rows sv.db).find? (Uniform.byId id) = some r →
      storedTag (.uniform rt id) sv.db = some ⟨r.etag⟩ := by
    intro r hr
    rw [storedTag, lookup_uniform, hr]; rfl
  constructor
  · intro hclosed
    by_contra hno
    obtain ⟨htext, hw⟩ := not_or.1 hno
    rw [not_not, Writable, hx] at hw
    obtain ⟨r, hr, hp⟩ := hw
    have hnone : ifMatch headers = none := ifMatch_other hv (by simpa using htext)
    have hends : Ends x.env 0 ⟨none, sv.db, sv.world⟩ (handle st x.request) fun _ s =>
        ∃ r', lookup (.uniform rt id) s.db = some (.uniform rt r') ∧ r'.etag = (x.env 2).etag.raw := by
      rw [hx]
      obtain ⟨u, hread⟩ := hp.reads
      exact ends_map.2 ((patchRow_written hu hr hp hread (by rw [hnone]; rfl)).mono fun _ _ h =>
        ⟨_, lookup_written hr h rfl, rfl⟩)
    obtain ⟨r', hafter, htag⟩ := (serve_ends (Q := fun _ db _ => ∃ r',
      lookup (.uniform rt id) db = some (.uniform rt r') ∧ r'.etag = (x.env 2).etag.raw)).2 hends
    rw [(hclosed hnames).2, lookup_uniform, hr] at hafter
    have hrr : r = r' := (Row.uniform.inj (Option.some.inj hafter)).2
    refine (hfresh 2).1 ((hrow r hr).trans ?_)
    rw [hrr, htag]
  · intro hor
    refine closed_of_ends ?_
    rw [hx]
    refine ends_map.2 ((patchRow_blocked fun r hr hp => ?_).mono fun _ _ => refused_map)
    rcases hor with htext | hw
    · exact refuses hv htext fun h => hnames ⟨_, hrow r hr, h⟩
    · have hwritable : Writable x sv.db := by
        rw [Writable, hx]
        exact ⟨r, hr, hp⟩
      exact absurd hwritable hw

theorem shallowPatch_closed_iff {st : AppState} {x : Call} {sv : Sv Unit} {svc : String} {id : Uuid}
    {headers : HeaderMap} {body : Json} {v : Bytes} (hx : x.request = .shallowPatch svc id headers body)
    (hv : headers.get "if-match" = some v) (hu : KeysUnique sv.db) (hfresh : Fresh x (.metadata id) v sv.db)
    (hnames : ¬Names v (.metadata id) sv.db) :
    Closed st x sv (.metadata id) v ↔ (headerStr v).isSome = true ∨ ¬Writable x sv.db := by
  have hwritable : Writable x sv.db = Mergeable x.env sv.db id body ((metadataT.rows sv.db).find? (Metadata.byId id)) := by
    rw [Writable, hx]
  have hrow : ∀ m, (metadataT.rows sv.db).find? (Metadata.byId id) = some m →
      storedTag (.metadata id) sv.db = some m.etag := by
    intro m hm
    rw [storedTag, lookup_metadata, hm]; rfl
  rw [hwritable]
  constructor
  · intro hclosed
    by_contra hno
    obtain ⟨htext, hm⟩ := not_or.1 hno
    have hnone : ifMatch headers = none := ifMatch_other hv (by simpa using htext)
    have hends : Ends x.env 0 ⟨none, sv.db, sv.world⟩ (handle st x.request) fun _ s =>
        ∃ n m, lookup (.metadata id) s.db = some (.metadata m) ∧ m.etag = (x.env n).etag := by
      rw [hx]
      exact ends_map.2 ((shallowPatch_written hu rfl (not_not.1 hm) (by rw [hnone]; rfl)).mono fun _ _ h => ⟨_, h⟩)
    obtain ⟨n, m, hafter, htag⟩ := (serve_ends (Q := fun _ db _ => ∃ n m,
      lookup (.metadata id) db = some (.metadata m) ∧ m.etag = (x.env n).etag)).2 hends
    rw [(hclosed hnames).2] at hafter
    refine (hfresh n).1 ?_
    rw [storedTag, hafter, ← htag]; rfl
  · intro hor
    refine closed_of_ends ?_
    rw [hx]
    refine ends_map.2 ((shallowPatch_blocked rfl fun hm => ?_).mono fun _ _ => refused_map)
    rcases hor with htext | hno
    · refine refuses hv htext fun h => ?_
      cases hfound : (metadataT.rows sv.db).find? (Metadata.byId id) with
      | none =>
        rw [hfound] at h
        exact (hfresh 2).2 h
      | some m =>
        rw [hfound] at h
        exact hnames ⟨_, hrow m hfound, h⟩
    · exact absurd hm hno

/-! ## The tags the server sends -/

/-- What `ETag::new_random` draws: sixteen hexadecimal digits. -/
def Issued (t : ETag) : Prop :=
  t.raw.toList.length = 16 ∧ ∀ c ∈ t.raw.toList, c.isDigit = true ∨ ('a' ≤ c ∧ c ≤ 'f')

/-- The `ETag` header of a response. -/
def etagHeader (t : ETag) : Bytes := 34 :: textBytes t.raw ++ [34]

theorem hex_bytes {c : Char} (h : c.isDigit = true ∨ ('a' ≤ c ∧ c ≤ 'f')) :
    ∃ b, String.utf8EncodeChar c = [b] ∧ 48 ≤ b ∧ b < 127 := by
  have hall : ∀ n : Fin 128, 48 ≤ n.val → n.val < 127 → String.utf8EncodeChar (Char.ofNat n.val) = [UInt8.ofNat n.val] ∧
      48 ≤ UInt8.ofNat n.val ∧ UInt8.ofNat n.val < 127 := by decide +kernel
  have hrange : 48 ≤ c.toNat ∧ c.toNat < 127 := by
    rcases h with h | ⟨hlo, hhi⟩
    · have h : 48 ≤ c.toNat ∧ c.toNat ≤ 57 := Char.isDigit_iff_toNat.1 h
      omega
    · have hlo : 97 ≤ c.toNat := hlo
      have hhi : c.toNat ≤ 102 := hhi
      omega
  have hbyte : String.utf8EncodeChar (Char.ofNat c.toNat) = [UInt8.ofNat c.toNat] ∧
      48 ≤ UInt8.ofNat c.toNat ∧ UInt8.ofNat c.toNat < 127 := hall ⟨c.toNat, by omega⟩ hrange.1 hrange.2
  rw [Char.ofNat_toNat] at hbyte
  exact ⟨_, hbyte⟩

theorem issued_bytes {t : ETag} (h : Issued t) : ∀ b ∈ textBytes t.raw, 48 ≤ b ∧ b < 127 := by
  intro b hb
  obtain ⟨c, hc, hb⟩ := List.mem_flatMap.1 hb
  obtain ⟨b', henc, hrange⟩ := hex_bytes (h.2 c hc)
  rw [henc] at hb
  rw [List.mem_singleton.1 hb]
  exact hrange

theorem stripped_quoted {bs : Bytes} (h : ∀ b ∈ bs, b ≠ 34) : stripped (34 :: bs ++ [34]) = bs := by
  have hkeep : ∀ bs : Bytes, (∀ b ∈ bs, b ≠ 34) → bs.dropWhile (· == 34) = bs := by
    intro bs h
    cases bs with
    | nil => rfl
    | cons b bs => rw [List.dropWhile_cons_of_neg (by simpa using h b (by simp))]
  cases bs with
  | nil => rfl
  | cons b bs =>
    have hfront : (34 :: (b :: bs) ++ [34]).dropWhile (· == 34) = b :: bs ++ [34] := by
      rw [List.cons_append, List.dropWhile_cons_of_pos (by decide), List.cons_append,
        List.dropWhile_cons_of_neg (by simpa using h b (by simp))]
    have hback : ((b :: bs ++ [34]).reverse).dropWhile (· == 34) = (b :: bs).reverse := by
      rw [List.reverse_append, List.reverse_singleton, List.singleton_append, List.dropWhile_cons_of_pos (by decide)]
      exact hkeep _ fun b hb => h b (List.mem_reverse.1 hb)
    simp only [stripped, hfront, hback, List.reverse_reverse]

/-- The header the server sent asks for the tag it names. -/
theorem ifMatch_echo {headers : HeaderMap} {t : ETag} (ht : Issued t) (h : headers.get "if-match" = some (etagHeader t)) :
    ifMatch headers = some t := by
  have hbytes := issued_bytes ht
  have htext : (headerStr (etagHeader t)).isSome = true := by
    unfold headerStr
    rw [if_pos ?_]
    · rfl
    · refine List.all_eq_true.2 fun b hb => ?_
      simp only [etagHeader, List.cons_append, List.mem_cons, List.mem_append, List.not_mem_nil, or_false] at hb
      rcases hb with rfl | hb | rfl
      · rfl
      · obtain ⟨hlo, hhi⟩ := hbytes b hb
        have hlo : 32 ≤ b := UInt8.le_trans (by decide) hlo
        simp [hlo, hhi]
      · rfl
  obtain ⟨s, hs⟩ := Option.isSome_iff_exists.1 htext
  rw [ifMatch_text h hs]
  have hstrip : stripped (etagHeader t) = textBytes t.raw := stripped_quoted fun b hb => by
    rintro rfl
    exact absurd (hbytes 34 hb).1 (by decide)
  rw [(stripped_tag hs t.raw).2 hstrip]

/-- The answer is not a 412. -/
def Accepted {β : Type} (a : Except AppError β) (_ : Moment) : Prop := ∀ c, a ≠ .error (.preconditionFailed c)

section
variable {α β : Type} {env : Nat → Env} {n : Nat} {s : Moment}

theorem Accepted.database {err : DbError Key Uniq} : Accepted (.error (.database err) : Except AppError β) s := by
  intro c h
  cases h

theorem Accepted.map {f : α → β} {a : Except AppError α} (h : Accepted a s) : Accepted (a.map f) s := by
  intro c hc
  cases a with
  | error e => exact h c (congrArg _ (Except.error.inj hc))
  | ok x => cases hc

/-- What is refused under the stored tag was not given it. -/
theorem Accepted.tagged {t : ETag} {names : ETag → Prop} {db : Db} {a : Except AppError α}
    (hnames : ∀ c, names c → c = t) (h : UsableTags.Tagged (some t) names db a s) : Accepted a s := by
  intro c hc
  obtain ⟨-, hn, x, hx, hne⟩ := h c hc
  obtain rfl := Option.some.inj hx
  exact hne (hnames c hn).symm

theorem append_accepted {entry : AuditLog.Entry} {f : Unit → Handler β} (h : ∀ m s, Ends env m s (f ()) Accepted) :
    Ends env n s (AuditLog.append entry >>= f) Accepted := by
  obtain ⟨tx, db, w⟩ := s
  rw [AuditLog.append, bind_assoc]
  exact Ends.execute_pool (fun _ _ => .database) fun _ _ _ => h _ _

theorem guild_accepted {id : Uuid} {f : Int → Handler β} (h : ∀ g m s, Ends env m s (f g) Accepted) :
    Ends env n s (Sessions.guildIdForSession id >>= f) Accepted := by
  obtain ⟨tx, db, w⟩ := s
  rw [Sessions.guildIdForSession]
  simp only [bind_assoc]
  refine Ends.fetchOptional_pool (fun _ _ => .database) fun rows _ _ => ?_
  cases (sessionsT.rows rows).head? with
  | none => exact fun c hc => by cases hc
  | some s => exact h _ _ _

end

/-- The tag the server sent holds while the row is as it was. -/
theorem echo_accepted {st : AppState} {x : Call} {sv : Sv Unit} {k : Key} {headers : HeaderMap} {t : ETag}
    (hx : subject x.request = some (k, headers)) (ht : Issued t) (hh : headers.get "if-match" = some (etagHeader t))
    (hs : storedTag k sv.db = some t) : ∀ c, (serve st x sv).1 ≠ .error (.preconditionFailed c) := by
  have hif := ifMatch_echo ht hh
  have hends : Ends x.env 0 ⟨none, sv.db, sv.world⟩ (handle st x.request) Accepted := by
    unfold subject at hx
    split at hx
    · next rt svc id headers' body hreq =>
      obtain ⟨rfl, rfl⟩ := Prod.mk.inj (Option.some.inj hx)
      rw [storedTag, lookup_uniform] at hs
      cases hr : ((uniformT rt).rows sv.db).find? (Uniform.byId id) with
      | none => rw [hr] at hs; cases hs
      | some r =>
        rw [hr] at hs
        obtain rfl : (⟨r.etag⟩ : ETag) = t := Option.some.inj hs
        have hnames : ∀ c : ETag, (((uniformT rt).rows sv.db).find? (Uniform.byId id)).map (fun r => ⟨r.etag⟩) = some c →
            c = ⟨r.etag⟩ := by
          intro c hc
          rw [hr] at hc
          exact (Option.some.inj hc).symm
        rw [hreq]
        refine ends_map.2 (Ends.mono ?_ fun _ _ => Accepted.map)
        rw [UniformRoutes.patchRow, hif]
        refine Ends.bind (UsableTags.patch_tagged rt id body) (fun row s m _ => ?_) fun e s h => .tagged hnames h
        exact append_accepted fun m s => guild_accepted fun g m s c hc => by cases hc
    · next svc id headers' body hreq =>
      obtain ⟨rfl, rfl⟩ := Prod.mk.inj (Option.some.inj hx)
      rw [storedTag, lookup_metadata] at hs
      cases hm : (metadataT.rows sv.db).find? (Metadata.byId id) with
      | none => rw [hm] at hs; cases hs
      | some m =>
        rw [hm] at hs
        obtain rfl : m.etag = t := Option.some.inj hs
        rw [hreq]
        refine ends_map.2 (Ends.mono ?_ fun _ _ => Accepted.map)
        rw [MetadataRoutes.shallowPatch, hif]
        refine Ends.bind (UsableTags.merge_tagged id body) (fun row s n _ => ?_) fun e s h =>
          .tagged (fun c hc => (hc m hm).symm) h
        exact append_accepted fun n s c hc => by cases hc
    · cases hx
  exact (serve_ends (Q := fun a _ _ => ∀ c, a ≠ .error (.preconditionFailed c))).2 hends

/-- A conditional write fails closed exactly when its header is text, or
spells the stored tag after all, or the database refuses the write anyway;
and the header the server sent holds while the row is as it was. -/
theorem fails_closed_iff (st : AppState) :
    (∀ (x : Call) (sv : Sv Unit) k headers v, subject x.request = some (k, headers) →
      headers.get "if-match" = some v → KeysUnique sv.db → Fresh x k v sv.db →
      (Closed st x sv k v ↔ (headerStr v).isSome = true ∨ Names v k sv.db ∨ ¬Writable x sv.db)) ∧
    ∀ (x : Call) (sv : Sv Unit) k headers t, subject x.request = some (k, headers) → Issued t →
      headers.get "if-match" = some (etagHeader t) → storedTag k sv.db = some t →
      ∀ c, (serve st x sv).1 ≠ .error (.preconditionFailed c) := by
  refine ⟨fun x sv k headers v hx hv hu hfresh => ?_, fun x sv k headers t hx ht hh hs => echo_accepted hx ht hh hs⟩
  by_cases hnames : Names v k sv.db
  · exact iff_of_true (fun hno => absurd hnames hno) (.inr (.inl hnames))
  · have hiff : Closed st x sv k v ↔ (headerStr v).isSome = true ∨ ¬Writable x sv.db := by
      unfold subject at hx
      split at hx
      · next hreq =>
        obtain ⟨rfl, rfl⟩ := Prod.mk.inj (Option.some.inj hx)
        exact patchRow_closed_iff hreq hv hu hfresh hnames
      · next hreq =>
        obtain ⟨rfl, rfl⟩ := Prod.mk.inj (Option.some.inj hx)
        exact shallowPatch_closed_iff hreq hv hu hfresh hnames
      · cases hx
    rw [hiff]
    exact or_congr_right (by simp [hnames])

def sampleTag : ETag := ⟨"0123456789abcdef"⟩

def sampleRow : UniformPgRow :=
  Uniform.freshRow .beats Sample.sessionId "bot" { clientId := "a", startMs := 0, endMs := 1, title := some "" } sampleTag
    (Sample.env 0)

def sampleServer : Sv Unit := Sample.server [.session Sample.session, .uniform .beats sampleRow]

/-- A new title, under this `If-Match`. -/
def sampleCall (v : Bytes) : Call :=
  { request := .patchRow .beats "bot" sampleRow.id [("if-match", v)] { title := some "new" }
    env := fun n => { Sample.env n with etag := ⟨"fedcba9876543210"⟩ } }

/-- Another tag is refused, and the tag sent is not. -/
theorem fails_closed_sample :
    Closed Sample.state (sampleCall (etagHeader ⟨"stale"⟩)) sampleServer (.uniform .beats sampleRow.id)
        (etagHeader ⟨"stale"⟩) ∧
      ∀ c, (serve Sample.state (sampleCall (etagHeader sampleTag)) sampleServer).1 ≠ .error (.preconditionFailed c) := by
  have hdraw : storedTag (.uniform .beats sampleRow.id) sampleServer.db ≠ some ⟨"fedcba9876543210"⟩ ∧
      stripped (etagHeader ⟨"stale"⟩) ≠ textBytes "fedcba9876543210" := by decide +kernel
  have hfresh : Fresh (sampleCall (etagHeader ⟨"stale"⟩)) (.uniform .beats sampleRow.id) (etagHeader ⟨"stale"⟩)
      sampleServer.db := fun _ => hdraw
  have hissued : Issued sampleTag := by
    have hall : sampleTag.raw.toList.all (fun c => c.isDigit || ('a' ≤ c && c ≤ 'f')) = true := by decide
    refine ⟨by decide, fun c hc => ?_⟩
    simpa using List.all_eq_true.1 hall c hc
  exact ⟨((fails_closed_iff Sample.state).1 (sampleCall (etagHeader ⟨"stale"⟩)) sampleServer
      (.uniform .beats sampleRow.id) _ (etagHeader ⟨"stale"⟩) rfl rfl (by decide +kernel) hfresh).2 (.inl (by decide +kernel)),
    (fails_closed_iff Sample.state).2 (sampleCall (etagHeader sampleTag)) sampleServer (.uniform .beats sampleRow.id) _
      sampleTag rfl hissued rfl (by decide +kernel)⟩

/-- The value is one Latin-1 letter: it is no tag, and the patch is applied. -/
theorem other_bytes_ignored : ¬Names [0xE9] (.uniform .beats sampleRow.id) sampleServer.db ∧
    (serve Sample.state (sampleCall [0xE9]) sampleServer).1.isOk = true ∧
    ¬Closed Sample.state (sampleCall [0xE9]) sampleServer (.uniform .beats sampleRow.id) [0xE9] := by
  have hnames : ¬Names [0xE9] (.uniform .beats sampleRow.id) sampleServer.db := by
    rintro ⟨t, ht, hb⟩
    have hstored : storedTag (.uniform .beats sampleRow.id) sampleServer.db = some sampleTag := by decide +kernel
    rw [hstored] at ht
    obtain rfl := Option.some.inj ht
    revert hb
    decide
  have hok : (serve Sample.state (sampleCall [0xE9]) sampleServer).1.isOk = true := by decide +kernel
  refine ⟨hnames, hok, fun hclosed => ?_⟩
  obtain ⟨⟨e, he⟩, -⟩ := hclosed hnames
  rw [he] at hok
  cases hok

end DataApi.FailsClosed
