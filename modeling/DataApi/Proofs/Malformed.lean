/-
Malformed pseudonyms. A path parameter is checked by the handler, first of all;
a body is decoded before the handler runs, by an instance that lets the sentinel
of the mixed audio through.
-/
import DataApi.Bodies
import DataApi.Proofs.Pseudonyms

namespace DataApi.Malformed

open Relational ReadCommitted Resumption Handler Pseudonyms

/-! ## Requests as they come -/

/-- Where a handler takes a pseudonym: in the body, or in the path. -/
inductive Entry
  | upsertUser
  | addOne
  | addBatch
  | createToken
  | grant
  | bulkPseudoId (rt : ResourceTable)
  | bulkAuthor (rt : ResourceTable)
  | patchAuthor (rt : ResourceTable)
  | fetchUser
  | listDisplay
  | fetchAdminUserDetail
  | patchUser
  | postDisplay
  | createMute
  | listMutes
  | deleteMute
  | wipeParticipantAudio

def Entry.inPath : Entry → Bool
  | .upsertUser | .addOne | .addBatch | .createToken | .grant | .bulkPseudoId _ | .bulkAuthor _ | .patchAuthor _ => false
  | _ => true

/-- A request with its body as it comes, or with a pseudonym in its path. -/
inductive Incoming
  | body (x : BodyRequest)
  | path (x : Request)
  | fetchUser (order : List DisplayName → List DisplayName) (pid : String)
  | listDisplay (order : List DisplayName → List DisplayName) (pid : String)
  | fetchAdminUserDetail (names : List DisplayName → List DisplayName)
      (order : List Users.ParticipatedSession → List Users.ParticipatedSession) (pid : String)
  | listMutes (order : List MuteRange → List MuteRange) (sessionId : Uuid) (pid : String)

inductive Response
  | rejected (r : JsonRejection)
  | refused (e : AppError)
  | success

def Response.status : Response → Nat
  | .rejected r => r.status
  | .refused e => e.status
  | .success => 200

def respond {α : Type} : Except AppError α → Response
  | .ok _ => .success
  | .error e => .refused e

/-- The extractor, and then the handler. -/
def run (st : AppState) (rd : Readers) : Incoming → Code Response
  | .body x => match x.deserialize rd with
    | .error r => .ret (.rejected r)
    | .ok req => respond <$> (handle st req).run
  | .path req => respond <$> (handle st req).run
  | .fetchUser order pid => respond <$> (UserRoutes.fetchUser order pid).run
  | .listDisplay order pid => respond <$> (UserRoutes.listDisplay order pid).run
  | .fetchAdminUserDetail names order pid => respond <$> (UserRoutes.fetchAdminUserDetail names order pid).run
  | .listMutes order sid pid => respond <$> (MuteRoutes.listMutes order sid pid).run

/-- A field of a struct with these fields, given by its name or by its place. -/
inductive Given (shape : Fields.Shape) (f : String × Json) : Json → Prop
  | named {fs} (h : f ∈ fs) : Given shape f (.obj fs)
  | placed {xs} (h : f ∈ Fields.ofSeq shape xs) : Given shape f (.arr xs)

/-- The rows of a bulk body, in whichever list. -/
def BulkRow (body row : Json) : Prop :=
  ∃ key ∈ ["segments", "beats", "scenes"], ∃ xs, Given UniformRoutes.BulkRequest.shape (key, .arr xs) body ∧ row ∈ xs

/-- The request takes the string for a pseudonym there. -/
inductive Carries (s : String) : Entry → Incoming → Prop
  | upsertUser {svc body} (h : Given Users.upsertShape ("pseudo_id", .str s) body) :
    Carries s .upsertUser (.body (.upsertUser svc body))
  | addOne {svc sid body} (h : Given Participants.AddParticipant.shape ("pseudo_id", .str s) body) :
    Carries s .addOne (.body (.addOne svc sid body))
  | addBatch {svc sid body xs x} (h : Given ParticipantRoutes.batchShape ("participants", .arr xs) body) (hx : x ∈ xs)
    (hs : Given Participants.AddParticipant.shape ("pseudo_id", .str s) x) : Carries s .addBatch (.body (.addBatch svc sid body))
  | createToken {svc body} (h : Given ConsentRoutes.CreateTokenRequest.shape ("pseudo_id", .str s) body) :
    Carries s .createToken (.body (.createToken svc body))
  | grant {body} (h : Given UserRoutes.GrantRequest.shape ("pseudo_id", .str s) body) : Carries s .grant (.body (.grant body))
  | bulkPseudoId {rt svc sid body row} (h : BulkRow body row)
    (hs : Given Uniform.CreateInput.shape ("pseudo_id", .str s) row) :
    Carries s (.bulkPseudoId rt) (.body (.bulkCreate rt svc sid body))
  | bulkAuthor {rt svc sid body row} (h : BulkRow body row)
    (hs : Given Uniform.CreateInput.shape ("author_user_pseudo_id", .str s) row) :
    Carries s (.bulkAuthor rt) (.body (.bulkCreate rt svc sid body))
  | patchAuthor {rt svc id headers body} (h : Given Uniform.PatchInput.shape ("author_user_pseudo_id", .str s) body) :
    Carries s (.patchAuthor rt) (.body (.patchRow rt svc id headers body))
  | fetchUser {order} : Carries s .fetchUser (.fetchUser order s)
  | listDisplay {order} : Carries s .listDisplay (.listDisplay order s)
  | fetchAdminUserDetail {names order} : Carries s .fetchAdminUserDetail (.fetchAdminUserDetail names order s)
  | patchUser {svc isAdmin} : Carries s .patchUser (.path (.patchUser svc s isAdmin))
  | postDisplay {svc input} : Carries s .postDisplay (.path (.postDisplay svc s input))
  | createMute {svc sid input} : Carries s .createMute (.path (.createMute svc sid s input))
  | listMutes {order sid} : Carries s .listMutes (.listMutes order sid s)
  | deleteMute {svc sid rangeId} : Carries s .deleteMute (.path (.deleteMute svc sid s rangeId))
  | wipeParticipantAudio {svc sid} : Carries s .wipeParticipantAudio (.path (.wipeParticipantAudio svc sid s))

/-- Answered with a client error, before any operation. -/
def Refused (p : Code Response) : Prop := ∃ a, p = .ret a ∧ 400 ≤ a.status ∧ a.status < 500

/-- Where a request takes a malformed string there, it is refused. -/
def Guarded (st : AppState) (rd : Readers) (e : Entry) (s : String) : Prop :=
  ∀ x, Carries s e x → ¬Hex24 s → Refused (run st rd x)

/-! ## Decoding that fails -/

def Fails {α : Type} (x : Except JsonRejection α) : Prop := ∃ r, x = .error r

section
variable {α β : Type} {fs : Fields} {key : String} {v : Json} {read : Reader α} {s : String}

theorem Fails.bind {x : Except JsonRejection α} (h : Fails x) (f : α → Except JsonRejection β) : Fails (x >>= f) := by
  obtain ⟨r, rfl⟩ := h
  exact ⟨r, rfl⟩

theorem fails_bind {x : Except JsonRejection α} {f : α → Except JsonRejection β} (h : ∀ a, Fails (f a)) : Fails (x >>= f) := by
  cases x with
  | error r => exact ⟨r, rfl⟩
  | ok a => exact h a

theorem Fails.map {x : Except JsonRejection α} (h : Fails x) (f : α → β) : Fails (f <$> x) := by
  obtain ⟨r, rfl⟩ := h
  exact ⟨r, rfl⟩

/-- A field that is there is read, or refused as a duplicate. -/
theorem filter_field (h : (key, v) ∈ fs) : (∃ f g rest, (fs.filter fun f => f.1 = key) = f :: g :: rest) ∨
    (fs.filter fun f => f.1 = key) = [(key, v)] := by
  have hmem : (key, v) ∈ fs.filter fun f => f.1 = key := List.mem_filter.2 ⟨h, by simp⟩
  cases hfs : fs.filter fun f => f.1 = key with
  | nil => rw [hfs] at hmem; cases hmem
  | cons f rest =>
    cases rest with
    | nil =>
      rw [hfs, List.mem_singleton] at hmem
      exact .inr (by rw [hmem])
    | cons g rest => exact .inl ⟨f, g, rest, rfl⟩

theorem get_fails (h : (key, v) ∈ fs) (hv : Fails (read v)) : Fails (fs.get key read) := by
  unfold Fields.get
  rcases filter_field h with ⟨f, g, rest, hfs⟩ | hfs
  · rw [hfs]
    exact ⟨_, rfl⟩
  · rw [hfs]
    exact hv

theorem getD_fails {d : α} (h : (key, v) ∈ fs) (hv : Fails (read v)) : Fails (fs.getD key read d) := by
  unfold Fields.getD
  rcases filter_field h with ⟨f, g, rest, hfs⟩ | hfs
  · rw [hfs]
    exact ⟨_, rfl⟩
  · rw [hfs]
    exact hv

theorem vec_fails {xs : List Json} (h : v ∈ xs) (hv : Fails (read v)) : Fails (Reader.vec read (.arr xs)) := by
  show Fails (xs.mapM read)
  induction xs with
  | nil => cases h
  | cons x xs ih =>
    rw [List.mapM_cons]
    rcases List.mem_cons.1 h with rfl | h
    · exact hv.bind _
    · exact fails_bind fun _ => (ih h).bind _

/-- The instance refuses what is neither a pseudonym nor the sentinel. -/
theorem pseudoId_fails (hs : ¬Hex24 s) (hm : s ≠ MIXED_PSEUDO_ID) : Fails (Reader.pseudoId (.str s)) := by
  have hbad : PseudoId.newOrMixed s = .error .invalid := by
    rw [← valid_iff, Bool.not_eq_true] at hs
    rw [PseudoId.newOrMixed, if_neg]
    simp [hm, hs]
  show Fails ((PseudoId.newOrMixed s).mapError _)
  rw [hbad]
  exact ⟨_, rfl⟩

/-- A struct is read from the field, by its name or its place. -/
theorem reader_fails {shape : Fields.Shape} {body : Json} {read : Fields → Except JsonRejection α}
    (h : Given shape (key, v) body) (hread : ∀ fs, (key, v) ∈ fs → Fails (read fs)) : Fails (Fields.reader shape read body) := by
  cases h with
  | named h => exact hread _ h
  | placed h => exact (hread _ h).bind _

/-! What it refuses fails the whole body. -/

theorem required_fails (h : ("pseudo_id", .str s) ∈ fs) (hs : ¬Hex24 s) (hm : s ≠ MIXED_PSEUDO_ID) :
    Fails (fs.get "pseudo_id" Reader.pseudoId) := get_fails h (pseudoId_fails hs hm)

theorem optional_fails (h : (key, .str s) ∈ fs) (hs : ¬Hex24 s) (hm : s ≠ MIXED_PSEUDO_ID) :
    Fails (fs.getD key (Reader.opt Reader.pseudoId) none) :=
  getD_fails h ((pseudoId_fails hs hm).map some)

theorem participant_fails {body : Json} (h : Given Participants.AddParticipant.shape ("pseudo_id", .str s) body)
    (hs : ¬Hex24 s) (hm : s ≠ MIXED_PSEUDO_ID) : Fails (Participants.AddParticipant.reader body) :=
  reader_fails h fun _ h => (required_fails h hs hm).bind _

theorem createInput_fails (rd : Readers) {body : Json} (hkey : key = "pseudo_id" ∨ key = "author_user_pseudo_id")
    (h : Given Uniform.CreateInput.shape (key, .str s) body) (hs : ¬Hex24 s) (hm : s ≠ MIXED_PSEUDO_ID) :
    Fails (Uniform.CreateInput.reader rd body) := by
  refine reader_fails h fun fs h => fails_bind fun _ => fails_bind fun _ => fails_bind fun _ => ?_
  rcases hkey with rfl | rfl
  · exact (optional_fails h hs hm).bind _
  · refine fails_bind fun _ => fails_bind fun _ => fails_bind fun _ => fails_bind fun _ => fails_bind fun _ => ?_
    exact fails_bind fun _ => fails_bind fun _ => (optional_fails h hs hm).bind _

theorem bulk_fails (rd : Readers) {body row : Json} (h : BulkRow body row)
    (hkey : key = "pseudo_id" ∨ key = "author_user_pseudo_id") (hg : Given Uniform.CreateInput.shape (key, .str s) row)
    (hs : ¬Hex24 s) (hm : s ≠ MIXED_PSEUDO_ID) : Fails (UniformRoutes.BulkRequest.reader rd body) := by
  obtain ⟨list, hlist, xs, hxs, hrow⟩ := h
  refine reader_fails hxs fun fs hxs => ?_
  have hrows : Fails (fs.getD list (Reader.opt (Reader.vec (Uniform.CreateInput.reader rd))) none) :=
    getD_fails hxs ((vec_fails hrow (createInput_fails rd hkey hg hs hm)).map some)
  simp only [List.mem_cons, List.not_mem_nil, or_false] at hlist
  rcases hlist with rfl | rfl | rfl
  · exact hrows.bind _
  · exact fails_bind fun _ => hrows.bind _
  · exact fails_bind fun _ => fails_bind fun _ => hrows.bind _

theorem patch_fails (rd : Readers) {body : Json}
    (h : Given Uniform.PatchInput.shape ("author_user_pseudo_id", .str s) body) (hs : ¬Hex24 s) (hm : s ≠ MIXED_PSEUDO_ID) :
    Fails (Uniform.PatchInput.reader rd body) := by
  refine reader_fails h fun fs h => fails_bind fun _ => fails_bind fun _ => fails_bind fun _ => fails_bind fun _ => ?_
  exact fails_bind fun _ => fails_bind fun _ => fails_bind fun _ => (optional_fails h hs hm).bind _

/-- A body that takes it anywhere does not decode. -/
theorem body_fails (rd : Readers) {e : Entry} {x : BodyRequest} (hx : Carries s e (.body x)) (hs : ¬Hex24 s)
    (hm : s ≠ MIXED_PSEUDO_ID) : Fails (x.deserialize rd) := by
  cases hx with
  | upsertUser h =>
    have hbody : Fails (Users.readUpsert _) := reader_fails h fun _ h => required_fails h hs hm
    exact hbody.map _
  | addOne h => exact (participant_fails h hs hm).map _
  | addBatch h hx hg =>
    have hbody : Fails (ParticipantRoutes.readBatch _) :=
      reader_fails h fun _ h => get_fails h (vec_fails hx (participant_fails hg hs hm))
    exact hbody.map _
  | createToken h =>
    have hbody : Fails (ConsentRoutes.CreateTokenRequest.reader rd _) :=
      reader_fails h fun _ h => fails_bind fun _ => fails_bind fun _ => (required_fails h hs hm).bind _
    exact hbody.map _
  | grant h =>
    have hbody : Fails (UserRoutes.GrantRequest.reader _) :=
      reader_fails h fun _ h => fails_bind fun _ => (required_fails h hs hm).bind _
    exact hbody.map _
  | bulkPseudoId h hg => exact (bulk_fails rd h (.inl rfl) hg hs hm).map _
  | bulkAuthor h hg => exact (bulk_fails rd h (.inr rfl) hg hs hm).map _
  | patchAuthor h => exact (patch_fails rd h hs hm).map _

end

/-! ## Handlers that check -/

section
variable {st : AppState} {rd : Readers} {s : String} {e : Entry} {x : Incoming}

/-- The first thing a handler with a pseudonym in its path does. -/
theorem path_refused {α : Type} (hs : ¬Hex24 s) (f : PseudoId → Handler α) :
    Refused (respond <$> (Handler.pseudoId s >>= f).run) := by
  have hbad : PseudoId.new s = .error .invalid := by
    rw [← valid_iff] at hs
    rw [PseudoId.new, if_neg hs]
  rw [Handler.pseudoId, hbad]
  exact ⟨.refused .invalidPseudoId, rfl, by decide, by decide⟩

/-- The handlers answer through a map. -/
theorem mapped_refused {α β : Type} {g : α → β} {p : Handler α} (h : Refused (respond <$> p.run)) :
    Refused (respond <$> (g <$> p).run) := by
  have hsame : respond <$> (g <$> p).run = respond <$> p.run := by
    rw [ExceptT.run_map, ← comp_map]
    refine congrArg (fun f => f <$> p.run) (funext fun a => ?_)
    cases a <;> rfl
  rw [hsame]
  exact h

theorem guarded_path (he : e.inPath = true) : Guarded st rd e s := by
  intro x hx hs
  cases hx with
  | fetchUser => exact path_refused hs _
  | listDisplay => exact path_refused hs _
  | fetchAdminUserDetail => exact path_refused hs _
  | listMutes => exact path_refused hs _
  | patchUser => exact mapped_refused (path_refused hs _)
  | postDisplay => exact mapped_refused (path_refused hs _)
  | createMute => exact mapped_refused (path_refused hs _)
  | deleteMute => exact mapped_refused (path_refused hs _)
  | wipeParticipantAudio => exact mapped_refused (path_refused hs _)
  | _ => cases he

theorem guarded_body (hm : s ≠ MIXED_PSEUDO_ID) (he : e.inPath = false) : Guarded st rd e s := by
  intro x hx hs
  cases x with
  | body x =>
    obtain ⟨r, hr⟩ := body_fails rd hx hs hm
    rw [run, hr]
    cases r <;> exact ⟨.rejected _, rfl, by simp [Response.status, JsonRejection.status]⟩
  | _ => cases hx <;> cases he

/-! ## The sentinel -/

def field (key value : String) : String × Json := (key, .str value)

/-- A row with this field, and a bulk body of it. -/
def bulkRow (f : String × Json) : Json := .obj [field "client_id" "c1", ("start_ms", .int 0), ("end_ms", .int 0), f]

def bulkBody (f : String × Json) : Json := .obj [("segments", .arr [bulkRow f])]

theorem bulkRow_bulkBody (f : String × Json) : BulkRow (bulkBody f) (bulkRow f) :=
  ⟨"segments", by simp, _, .named List.mem_cons_self, List.mem_cons_self⟩

theorem given_bulkRow (f : String × Json) : Given Uniform.CreateInput.shape f (bulkRow f) := .named (by simp)

/-- Wherever a body takes it, some request with the sentinel reaches the
database. -/
theorem mixed_passes (st : AppState) (huuid : ∃ v u, rd.uuid v = .ok u) (he : e.inPath = false) :
    ∃ x, Carries MIXED_PSEUDO_ID e x ∧ ∃ o k, run st rd x = .op o k := by
  obtain ⟨v, u, hu⟩ := huuid
  cases e with
  | upsertUser =>
    refine ⟨.body (.upsertUser "bot" (.obj [field "pseudo_id" MIXED_PSEUDO_ID])), .upsertUser (.named (by simp [field])), _, _, rfl⟩
  | addOne =>
    refine ⟨.body (.addOne "bot" 0 (.obj [field "pseudo_id" MIXED_PSEUDO_ID])), .addOne (.named (by simp [field])), _, _, rfl⟩
  | addBatch =>
    refine ⟨.body (.addBatch "bot" 0 (.obj [("participants", .arr [.obj [field "pseudo_id" MIXED_PSEUDO_ID]])])),
      .addBatch (.named List.mem_cons_self) List.mem_cons_self (.named List.mem_cons_self), _, _, rfl⟩
  | createToken =>
    refine ⟨.body (.createToken "bot" (.obj [("session_id", v), ("participant_id", v), field "pseudo_id" MIXED_PSEUDO_ID])),
      .createToken (.named (by simp [field])), ?_⟩
    have hread : ConsentRoutes.CreateTokenRequest.reader rd
        (.obj [("session_id", v), ("participant_id", v), field "pseudo_id" MIXED_PSEUDO_ID]) = .ok ⟨u, u, ⟨MIXED_PSEUDO_ID⟩⟩ := by
      show (do
        let a ← rd.uuid v
        let b ← rd.uuid v
        return (⟨a, b, ⟨MIXED_PSEUDO_ID⟩⟩ : ConsentRoutes.CreateTokenRequest)) = _
      rw [hu]
      rfl
    rw [run, BodyRequest.deserialize, hread]
    exact ⟨_, _, rfl⟩
  | grant =>
    refine ⟨.body (.grant (.obj [field "shared_secret" st.sharedSecret, field "pseudo_id" MIXED_PSEUDO_ID])),
      .grant (.named (by simp [field])), ?_⟩
    have hread : UserRoutes.GrantRequest.reader
        (.obj [field "shared_secret" st.sharedSecret, field "pseudo_id" MIXED_PSEUDO_ID]) =
        .ok ⟨st.sharedSecret, ⟨MIXED_PSEUDO_ID⟩, true⟩ := rfl
    have hsecret : decide (st.sharedSecret ≠ st.sharedSecret) = false := decide_eq_false fun h => h rfl
    rw [run, BodyRequest.deserialize, hread]
    show ∃ o k, respond <$> (Reply.user <$> UserRoutes.grant st ⟨st.sharedSecret, ⟨MIXED_PSEUDO_ID⟩, true⟩).run = .op o k
    rw [UserRoutes.grant, hsecret]
    exact ⟨_, _, rfl⟩
  | bulkPseudoId rt =>
    refine ⟨.body (.bulkCreate rt "bot" 0 (bulkBody (field "pseudo_id" MIXED_PSEUDO_ID))),
      .bulkPseudoId (bulkRow_bulkBody _) (given_bulkRow _), _, _, rfl⟩
  | bulkAuthor rt =>
    refine ⟨.body (.bulkCreate rt "bot" 0 (bulkBody (field "author_user_pseudo_id" MIXED_PSEUDO_ID))),
      .bulkAuthor (bulkRow_bulkBody _) (given_bulkRow _), _, _, rfl⟩
  | patchAuthor rt =>
    refine ⟨.body (.patchRow rt "bot" 0 [] (.obj [field "author_user_pseudo_id" MIXED_PSEUDO_ID])),
      .patchAuthor (.named (by simp [field])), _, _, rfl⟩
  | _ => cases he

theorem mixed_malformed : ¬Hex24 MIXED_PSEUDO_ID := by
  rw [← valid_iff]
  decide +kernel

/-- So no body guards against it. -/
theorem mixed_unguarded (st : AppState) (huuid : ∃ v u, rd.uuid v = .ok u) (he : e.inPath = false) :
    ¬Guarded st rd e MIXED_PSEUDO_ID := by
  intro h
  obtain ⟨x, hx, o, k, hrun⟩ := mixed_passes st huuid he
  obtain ⟨a, ha, -⟩ := h x hx mixed_malformed
  rw [hrun] at ha
  cases ha

/-- An entry guards against a string exactly if it is in the path, or the string
is not the sentinel. -/
theorem guarded_iff (st : AppState) (huuid : ∃ v u, rd.uuid v = .ok u) (e : Entry) (s : String) :
    Guarded st rd e s ↔ e.inPath = true ∨ s ≠ MIXED_PSEUDO_ID := by
  constructor
  · intro h
    by_contra hno
    obtain ⟨he, hs⟩ := not_or.1 hno
    rw [Bool.not_eq_true] at he
    rw [not_not] at hs
    exact mixed_unguarded st huuid he (hs ▸ h)
  · rintro (he | hm)
    · exact guarded_path he
    · by_cases he : e.inPath = true
      · exact guarded_path he
      · exact guarded_body hm (by simpa using he)

end

theorem guarded_sample : Guarded Sample.state Sample.readers .upsertUser "0123456789abcdef" :=
  (guarded_iff Sample.state ⟨.str (Uuid.text Sample.sessionId), Sample.sessionId, rfl⟩ .upsertUser _).2 (.inr (by decide))

/-- An upsert of the sentinel is decoded, and the answer is a database error. -/
theorem sentinel_upserted : ¬Guarded Sample.state Sample.readers .upsertUser "mixed" ∧ ¬Hex24 "mixed" ∧
    ∃ req, (BodyRequest.upsertUser "bot" (.obj [("pseudo_id", .str "mixed")])).deserialize Sample.readers = .ok req ∧
      (respond (serve Sample.state ⟨req, Sample.env⟩ (Sample.server [])).1).status = 500 :=
  ⟨mixed_unguarded Sample.state ⟨.str (Uuid.text Sample.sessionId), Sample.sessionId, rfl⟩ rfl, mixed_malformed,
    .upsertUser "bot" ⟨"mixed"⟩, rfl, by decide +kernel⟩

end DataApi.Malformed
