import HaskellAgent.Accounts.CredentialStore

/-!
# The credential store after a crash

Whatever operations run and wherever they are cut off, the two files can be joined: each account of
the metadata has a secret.  What is stored is then a list of entries, and an operation changes at
most the entry it names.
-/

open List Option Function

namespace HaskellAgent.Accounts

open HaskellAgent.Wire CutProgram

/-! ### The files are read as they were written -/

section RoundTrip

theorem atKey_written {α : Type} {decoder : Decoder α} {toJson : α → Json} {key : String}
    {fields : List Field} {members : Object} {a : α} (hw : Written fields members)
    (hread : decoder (toJson a).norm = some a)
    (hfield : fields.lookup key.toList = some (some (toJson a))) :
    Hermes.atKey key decoder members = some a := by
  rw [Hermes.atKey, hw hfield]
  exact hread

theorem defaultKey_written {α : Type} {decoder : Decoder α} {toJson : α → Json} {key : String}
    {fields : List Field} {members : Object} {fallback a : α} (hw : Written fields members)
    (hread : decoder (toJson a).norm = some a) (hne : toJson a ≠ .null)
    (hfield : fields.lookup key.toList = some (some (toJson a))) :
    defaultKey fallback key decoder members = some a := by
  rw [defaultKey, hw.present hread hne hfield]
  rfl

theorem list_written {α : Type} {decoder : Decoder α} {toJson : α → Json}
    (hread : ∀ a, decoder (toJson a).norm = some a) (as : List α) :
    Hermes.list decoder (listOf toJson as).norm = some as := by
  rw [listOf, Json.norm, Json.normElements_eq_map, Hermes.list]
  induction as with
  | nil => rfl
  | cons a as ih =>
    rw [map_cons, map_cons, mapM_cons]
    exact bind_some (hread a) (bind_some ih rfl)

theorem parseProvider_slug (provider : Provider) :
    parseProvider (providerSlug provider) = some provider := by
  cases provider <;> decide +kernel

theorem billingMode_written (mode : BillingMode) :
    billingModeDecoder mode.toJson.norm = some mode := by
  cases mode <;> decide +kernel

theorem managedAuthKind_written (kind : ManagedAuthKind) :
    managedAuthKindDecoder kind.toJson.norm = some kind := by
  cases kind <;> decide +kernel

theorem managedCredential_written (credential : ManagedCredential) :
    managedCredentialDecoder credential.toJson.norm = some credential := by
  refine reads_objectWith (by simp [field]) fun members hw => ?_
  refine bind_some (hw.tag rfl) ?_
  refine bind_some (parseProvider_slug _) ?_
  refine bind_some (hw.tag rfl) ?_
  refine bind_some (hw.tag rfl) ?_
  refine bind_some (hw.tag rfl) ?_
  refine bind_some (atKey_written hw (billingMode_written _) rfl) ?_
  refine bind_some (atKey_written hw (managedAuthKind_written _) rfl) ?_
  have henabled : Hermes.bool (Json.bool credential.managedEnabled).norm =
      some credential.managedEnabled := by
    rw [Json.norm]
    rfl
  exact bind_some (defaultKey_written hw henabled (by simp) rfl) rfl

theorem managedSecret_written (secret : ManagedSecret) :
    managedSecretDecoder secret.toJson.norm = some secret := by
  refine reads_objectWith (by simp [field]) fun members hw => ?_
  exact bind_some (hw.tag rfl) (bind_some (hw.tag rfl) rfl)

theorem version_written : Hermes.int (integer 1).norm = some 1 := by
  rw [norm_integer]
  rfl

theorem metadataFile_written (store : ManagedCredentialStore) :
    metadataFileDecoder (metadataFile store).toJson.norm = some (metadataFile store) := by
  refine reads_objectWith (by simp [field]) fun members hw => ?_
  refine bind_some (defaultKey_written hw version_written (by simp [integer]) rfl) ?_
  exact bind_some (defaultKey_written hw (list_written managedCredential_written _)
    listOf_ne_null rfl) rfl

theorem secretsFile_written (store : ManagedCredentialStore) :
    secretsFileDecoder (secretsFile store).toJson.norm = some (secretsFile store) := by
  refine reads_objectWith (by simp [field]) fun members hw => ?_
  refine bind_some (defaultKey_written hw version_written (by simp [integer]) rfl) ?_
  exact bind_some (defaultKey_written hw (list_written managedSecret_written _)
    listOf_ne_null rfl) rfl

end RoundTrip

/-! ### What a disk holds -/

variable {host : CredentialHost}

/-- What a file that may be missing is read as. -/
def contents {α : Type} (host : CredentialHost) (decoder : Decoder α) (empty : α) :
    Option Text → Option α
  | none => some empty
  | some bytes => (host.parse bytes).bind decoder

/-- The secret of an id, the first one of the file. -/
def secretOf (secrets : List ManagedSecret) (id : Text) : Option ManagedSecret :=
  secrets.find? fun secret => secret.secretManagedId = id

/-- The entries are those of the metadata, each with the secret that the other file has for it. -/
structure Stores (host : CredentialHost) (disk : Disk) (entries : List ManagedCredentialEntry) :
    Prop where
  metadata : ∃ version, contents host metadataFileDecoder ⟨1, []⟩ disk.metadata =
    some ⟨version, entries.map (·.entryCredential)⟩
  secrets : ∃ file, contents host secretsFileDecoder ⟨1, []⟩ disk.secrets = some file ∧
    ∀ entry ∈ entries, secretOf file.storedSecrets entry.entryManagedId = some entry.entrySecret
  nodup : (entries.map (·.entryManagedId)).Nodup

theorem stores_empty (host : CredentialHost) : Stores host Disk.empty [] where
  metadata := ⟨1, rfl⟩
  secrets := ⟨⟨1, []⟩, rfl, fun _ h => nomatch h⟩
  nodup := nodup_nil

variable {secrets : List ManagedSecret}

theorem attachSecret_eq_ok {entry : ManagedCredentialEntry}
    (h : secretOf secrets entry.entryManagedId = some entry.entrySecret) :
    attachSecret secrets entry.entryCredential = .ok entry := by
  have hid : entry.entryCredential.managedId = entry.entrySecret.secretManagedId :=
    entry.credential_id.trans entry.secret_id.symm
  rw [secretOf, ← entry.credential_id] at h
  obtain ⟨id, credential, secret, rfl, hsecret⟩ := entry
  rw [attachSecret, h]
  exact dif_pos hid

variable {entries : List ManagedCredentialEntry}

theorem mapM_attachSecret
    (h : ∀ entry ∈ entries, secretOf secrets entry.entryManagedId = some entry.entrySecret) :
    (entries.map (·.entryCredential)).mapM (attachSecret secrets) = .ok entries := by
  induction entries with
  | nil => rfl
  | cons entry entries ih =>
    rw [map_cons, mapM_cons, attachSecret_eq_ok (h entry mem_cons_self),
      ih fun e he => h e (mem_cons_of_mem _ he)]
    rfl

/-- Reading a file fails, or gives what the file holds. -/
theorem keeps_decodeFileOrEmpty {α : Type} {decoder : Decoder α} {file : CredentialFile}
    {empty value : α} {session : Session} {I : Session → Prop} (hI : I session)
    (hvalue : contents host decoder empty (session.disk.get file) = some value) :
    (decodeFileOrEmpty host decoder file empty).Keeps fileSystem I
      (fun result t => t = session ∧ ∀ v, result = .ok v → v = value) session := by
  refine ⟨hI, fun ending => ?_⟩
  rcases hfile : session.disk.get file with _ | bytes
  · rw [hfile] at hvalue
    cases hvalue
    have hdone : (CutProgram.done (.ok empty) : Program (Except Text α)).Keeps fileSystem I
        (fun result t => t = session ∧ ∀ v, result = .ok v → v = empty) session :=
      .of_done hI ⟨rfl, fun v hv => (Except.ok.inj hv).symm⟩
    cases ending with
    | succeeds | fails exception => simpa only [fileSystem, hfile] using hdone
  · rw [hfile] at hvalue
    cases ending with
    | succeeds =>
      simp only [fileSystem, hfile, show (host.parse bytes).bind decoder = some value from hvalue]
      exact .of_done hI ⟨rfl, fun v hv => (Except.ok.inj hv).symm⟩
    | fails exception =>
      simp only [fileSystem, hfile]
      exact .of_done hI ⟨rfl, fun v hv => nomatch hv⟩

theorem joinFiles_eq_ok {version secretsVersion : ℤ}
    (h : ∀ entry ∈ entries, secretOf secrets entry.entryManagedId = some entry.entrySecret) :
    joinFiles (.ok ⟨version, entries.map (·.entryCredential)⟩) (.ok ⟨secretsVersion, secrets⟩) =
      .ok ⟨entries⟩ := by
  exact congrArg (Except.bind · fun es => .ok (ManagedCredentialStore.mk es)) (mapM_attachSecret h)

/-- Loading fails, or gives what the disk holds. -/
theorem keeps_load {session : Session} {I : Session → Prop} (hI : I session)
    (h : Stores host session.disk entries) :
    (loadManagedCredentialStoreUnlocked host).Keeps fileSystem I
      (fun result t => t = session ∧ ∀ store, result = .ok store → store = ⟨entries⟩) session := by
  obtain ⟨version, hmetadata⟩ := h.metadata
  obtain ⟨file, hsecrets, hattached⟩ := h.secrets
  refine (keeps_decodeFileOrEmpty hI hmetadata).bind ?_
  rintro metadataResult t ⟨rfl, hmetadataResult⟩
  refine (keeps_decodeFileOrEmpty hI hsecrets).bind ?_
  rintro secretsResult t ⟨rfl, hsecretsResult⟩
  refine .of_done hI ⟨rfl, fun store hstore => ?_⟩
  cases metadataResult with
  | error err => cases hstore
  | ok metadata =>
    cases secretsResult with
    | error err => cases hstore
    | ok secrets =>
      obtain rfl := hmetadataResult _ rfl
      obtain rfl := hsecretsResult _ rfl
      exact Except.ok.inj (hstore.symm.trans (joinFiles_eq_ok hattached))

/-- A file that can be read is read. -/
theorem run_decodeFileOrEmpty {α β : Type} {decoder : Decoder α} {file : CredentialFile}
    {empty value : α} (session : Session)
    (hvalue : contents host decoder empty (session.disk.get file) = some value)
    (f : Except Text α → Program β) (endings : List Ending) :
    (decodeFileOrEmpty host decoder file empty >>= f).run fileSystem (.succeeds :: endings) session =
      (f (.ok value)).run fileSystem endings session := by
  rw [decodeFileOrEmpty, perform_bind, CutProgram.run]
  rcases hfile : session.disk.get file with _ | bytes
  · rw [hfile] at hvalue
    cases hvalue
    simp only [fileSystem, hfile, done_bind]
  · rw [hfile] at hvalue
    simp only [fileSystem, hfile, show (host.parse bytes).bind decoder = some value from hvalue,
      done_bind]

/-- Where no operation fails the entries are loaded. -/
theorem run_load {disk : Disk} (h : Stores host disk entries) :
    ((loadManagedCredentials host).run fileSystem [.succeeds, .succeeds] ⟨disk, []⟩).2 =
      some (.ok (managedCredentialPairs ⟨entries⟩)) := by
  obtain ⟨version, hmetadata⟩ := h.metadata
  obtain ⟨⟨secretsVersion, secrets⟩, hsecrets, hattached⟩ := h.secrets
  rw [loadManagedCredentials, loadManagedCredentialStoreUnlocked, bind_bind,
    run_decodeFileOrEmpty ⟨disk, []⟩ hmetadata, bind_bind,
    run_decodeFileOrEmpty ⟨disk, []⟩ hsecrets]
  exact congrArg (fun loaded => some (Except.map managedCredentialPairs loaded))
    (joinFiles_eq_ok hattached)

/-! ### Entries by id -/

/-- The entry of an id. -/
def entryOf (entries : List ManagedCredentialEntry) (id : Text) : Option ManagedCredentialEntry :=
  entries.find? fun entry => entry.entryManagedId = id

/-- The entries with the one of an id replaced. -/
def mapAt (id : Text) (update : ManagedCredentialEntry → ManagedCredentialEntry)
    (entries : List ManagedCredentialEntry) : List ManagedCredentialEntry :=
  entries.map fun entry => if entry.entryManagedId = id then update entry else entry

section Entries

variable {entries : List ManagedCredentialEntry} {entry : ManagedCredentialEntry} {id : Text}
  {update : ManagedCredentialEntry → ManagedCredentialEntry}

theorem secretOf_map (entries : List ManagedCredentialEntry) (id : Text) :
    secretOf (entries.map (·.entrySecret)) id = (entryOf entries id).map (·.entrySecret) := by
  rw [secretOf, entryOf, List.find?_map]
  congr 2
  funext entry
  rw [comp_apply, entry.secret_id]

theorem entryOf_of_mem (hnodup : (entries.map (·.entryManagedId)).Nodup) (h : entry ∈ entries) :
    entryOf entries entry.entryManagedId = some entry := by
  induction entries with
  | nil => cases h
  | cons e entries ih =>
    rw [map_cons, nodup_cons] at hnodup
    rw [entryOf]
    rcases mem_cons.mp h with rfl | h
    · exact List.find?_cons_of_pos (by simp)
    · have hne : e.entryManagedId ≠ entry.entryManagedId := by
        intro heq
        exact hnodup.1 (List.mem_map.mpr ⟨entry, h, heq.symm⟩)
      rw [List.find?_cons_of_neg (by simpa using hne)]
      exact ih hnodup.2 h

theorem entryOf_eq_none (h : ∀ entry ∈ entries, entry.entryManagedId ≠ id) :
    entryOf entries id = none := by
  rw [entryOf, List.find?_eq_none]
  intro entry hentry
  simpa using h entry hentry

theorem id_of_entryOf (h : entryOf entries id = some entry) : entry.entryManagedId = id := by
  simpa using List.find?_some h

theorem map_id_mapAt (hupdate : ∀ e, (update e).entryManagedId = e.entryManagedId) :
    (mapAt id update entries).map (·.entryManagedId) = entries.map (·.entryManagedId) := by
  rw [mapAt, List.map_map]
  refine map_congr_left fun e _ => ?_
  by_cases hid : e.entryManagedId = id
  · simp only [comp_apply, hid, if_true, hupdate e]
  · simp only [comp_apply, hid, if_false]

theorem entryOf_mapAt (hupdate : ∀ e, (update e).entryManagedId = e.entryManagedId) :
    entryOf (mapAt id update entries) id = (entryOf entries id).map update := by
  induction entries with
  | nil => rfl
  | cons e entries ih =>
    rw [mapAt, entryOf] at ih
    rw [mapAt, map_cons, entryOf, entryOf]
    by_cases hid : e.entryManagedId = id
    · rw [if_pos hid, List.find?_cons_of_pos (by simpa using (hupdate e).trans hid),
        List.find?_cons_of_pos (by simpa using hid)]
      rfl
    · rw [if_neg hid, List.find?_cons_of_neg (by simpa using hid),
        List.find?_cons_of_neg (by simpa using hid), ih]
      rfl

/-- The entries of the other ids. -/
def othersOf (id : Text) (entries : List ManagedCredentialEntry) : List ManagedCredentialEntry :=
  entries.filter fun entry => entry.entryManagedId ≠ id

theorem othersOf_mapAt (hupdate : ∀ e, (update e).entryManagedId = e.entryManagedId) :
    othersOf id (mapAt id update entries) = othersOf id entries := by
  induction entries with
  | nil => rfl
  | cons e entries ih =>
    rw [mapAt, othersOf] at ih
    rw [mapAt, map_cons, othersOf, othersOf]
    by_cases hid : e.entryManagedId = id
    · rw [if_pos hid, filter_cons_of_neg (by simpa [hupdate e] using hid),
        filter_cons_of_neg (by simpa using hid), ih]
      rfl
    · rw [if_neg hid, filter_cons_of_pos (by simpa using hid),
        filter_cons_of_pos (by simpa using hid), ih]
      rfl

theorem othersOf_othersOf : othersOf id (othersOf id entries) = othersOf id entries := by
  rw [othersOf, othersOf, List.filter_filter]
  simp only [Bool.and_self]

theorem ne_of_mem_othersOf (h : entry ∈ othersOf id entries) : entry.entryManagedId ≠ id := by
  simpa using (mem_filter.mp h).2

theorem othersOf_upsert :
    othersOf entry.entryManagedId (upsertStoreEntry entry ⟨entries⟩).storeEntries =
      othersOf entry.entryManagedId entries := by
  rw [upsertStoreEntry, othersOf, filter_cons_of_neg (by simp)]
  exact othersOf_othersOf

theorem entryOf_upsert :
    entryOf (upsertStoreEntry entry ⟨entries⟩).storeEntries entry.entryManagedId = some entry := by
  exact List.find?_cons_of_pos (by simp)

theorem entryOf_upsert_ne (h : id ≠ entry.entryManagedId) :
    entryOf (upsertStoreEntry entry ⟨entries⟩).storeEntries id = entryOf entries id := by
  rw [upsertStoreEntry, entryOf, List.find?_cons_of_neg (by simpa using h.symm), entryOf]
  rw [List.find?_filter]
  congr 1
  funext e
  by_cases hid : e.entryManagedId = id
  · simp [hid, h]
  · simp [hid]

theorem nodup_upsert (hnodup : (entries.map (·.entryManagedId)).Nodup) :
    ((upsertStoreEntry entry ⟨entries⟩).storeEntries.map (·.entryManagedId)).Nodup := by
  rw [upsertStoreEntry, map_cons, nodup_cons]
  refine ⟨fun hmem => ?_, hnodup.sublist (filter_sublist.map _)⟩
  obtain ⟨e, he, hid⟩ := List.mem_map.mp hmem
  exact ne_of_mem_othersOf he hid

end Entries

/-! ### Writing the files -/

section Writing

variable {disk : Disk} {entries : List ManagedCredentialEntry}

section

variable (hlawful : host.Lawful)
include hlawful

theorem contents_metadata (store : ManagedCredentialStore) :
    contents host metadataFileDecoder ⟨1, []⟩ (some (host.encode (metadataFile store).toJson)) =
      some (metadataFile store) := by
  rw [contents, JsonCodec.encode, hlawful.parse_render]
  exact metadataFile_written store

theorem contents_secrets (store : ManagedCredentialStore) :
    contents host secretsFileDecoder ⟨1, []⟩ (some (host.encode (secretsFile store).toJson)) =
      some (secretsFile store) := by
  rw [contents, JsonCodec.encode, hlawful.parse_render]
  exact secretsFile_written store

/-- The disk with both files of a store. -/
theorem stores_written (hnodup : (entries.map (·.entryManagedId)).Nodup) :
    Stores host ⟨some (host.encode (metadataFile ⟨entries⟩).toJson),
      some (host.encode (secretsFile ⟨entries⟩).toJson)⟩ entries where
  metadata := ⟨1, contents_metadata hlawful ⟨entries⟩⟩
  secrets := by
    refine ⟨_, contents_secrets hlawful ⟨entries⟩, fun entry hentry => ?_⟩
    rw [secretsFile, secretOf_map, entryOf_of_mem hnodup hentry]
    rfl
  nodup := hnodup

/-- New secrets beside the old metadata. -/
theorem Stores.putSecrets {updated : List ManagedCredentialEntry}
    (h : Stores host disk entries) (entries' : List ManagedCredentialEntry)
    (hcredentials : updated.map (·.entryCredential) = entries.map (·.entryCredential))
    (hids : updated.map (·.entryManagedId) = entries.map (·.entryManagedId))
    (hsecrets : ∀ entry ∈ updated, (entryOf entries' entry.entryManagedId).map (·.entrySecret) =
      some entry.entrySecret) :
    Stores host (disk.put (host.encode (secretsFile ⟨entries'⟩).toJson) .secrets) updated where
  metadata := by
    rw [hcredentials]
    exact h.metadata
  secrets := by
    refine ⟨_, contents_secrets hlawful ⟨entries'⟩, fun entry hentry => ?_⟩
    rw [secretsFile, secretOf_map]
    exact hsecrets entry hentry
  nodup := hids ▸ h.nodup

/-- New metadata beside the old secrets. -/
theorem Stores.putMetadata (h : Stores host disk entries)
    {entries' : List ManagedCredentialEntry}
    (hnodup : (entries'.map (·.entryManagedId)).Nodup)
    (hsecrets : ∀ entry' ∈ entries', ∃ entry ∈ entries,
      entry.entryManagedId = entry'.entryManagedId ∧ entry.entrySecret = entry'.entrySecret) :
    Stores host (disk.put (host.encode (metadataFile ⟨entries'⟩).toJson) .metadata) entries' where
  metadata := ⟨1, contents_metadata hlawful ⟨entries'⟩⟩
  secrets := by
    obtain ⟨file, hfile, hattached⟩ := h.secrets
    refine ⟨file, hfile, fun entry' hentry' => ?_⟩
    obtain ⟨entry, hentry, hid, hsecret⟩ := hsecrets entry' hentry'
    rw [← hid, ← hsecret]
    exact hattached entry hentry
  nodup := hnodup

end

theorem keeps_writePrivateJson {file : CredentialFile} {value : Json} {session : Session}
    {I : Session → Prop} {Q : Except Text Unit → Session → Prop} (hI : I session)
    (hfails : ∀ err, Q (.error err) session)
    (hdone : I ⟨session.disk.put (host.encode value) file, session.written ++ [file]⟩ ∧
      Q (.ok ()) ⟨session.disk.put (host.encode value) file, session.written ++ [file]⟩) :
    (writePrivateJson host file value).Keeps fileSystem I Q session := by
  refine ⟨hI, fun ending => ?_⟩
  cases ending with
  | succeeds => exact hdone
  | fails exception => exact ⟨hI, hfails _⟩

theorem keeps_writeBoth {first second : CredentialFile × Json} {session : Session}
    {I : Session → Prop} {Q : Except Text Unit → Session → Prop} (hI : I session)
    (hfails : ∀ err t, Q (.error err) t)
    (hfirst : I ⟨session.disk.put (host.encode first.2) first.1, session.written ++ [first.1]⟩)
    (hsecond : I ⟨(session.disk.put (host.encode first.2) first.1).put (host.encode second.2)
      second.1, session.written ++ [first.1] ++ [second.1]⟩)
    (hdone : Q (.ok ()) ⟨(session.disk.put (host.encode first.2) first.1).put
      (host.encode second.2) second.1, session.written ++ [first.1] ++ [second.1]⟩) :
    (writeBoth host first second).Keeps fileSystem I Q session := by
  refine (keeps_writePrivateJson (Q := fun result t => I t ∧ (result = .ok () →
    t = ⟨session.disk.put (host.encode first.2) first.1, session.written ++ [first.1]⟩)) hI
    (fun err => ⟨hI, fun h => nomatch h⟩) ⟨hfirst, hfirst, fun _ => rfl⟩).bind ?_
  rintro (err | ⟨⟩) t ⟨ht, hok⟩
  · exact .of_done ht (hfails err t)
  · obtain rfl := hok rfl
    exact keeps_writePrivateJson hfirst (fun err => hfails err _) ⟨hsecond, hdone⟩

end Writing

/-! ### Operations, and what they are meant to do -/

abbrev Pairs := List (ManagedCredential × ManagedSecret)

/-- What is stored for an id. -/
def stored (pairs : Pairs) (id : Text) : Option (ManagedCredential × ManagedSecret) :=
  pairs.find? fun pair => pair.1.managedId = id

/-- What is stored for the other ids. -/
def others (id : Text) (pairs : Pairs) : Pairs := pairs.filter fun pair => pair.1.managedId ≠ id

inductive Operation
  | upsert (credential : ManagedCredential) (secret : ManagedSecret)
  | upsertAfterRefresh (credential : ManagedCredential) (secret : ManagedSecret)
  | updateSecret (credentialId payload : Text)
  | setEnabled (credentialId : Text) (enabled : Bool)
  | delete (credentialId : Text)

namespace Operation

def program (host : CredentialHost) : Operation → Program (Except Text Unit)
  | upsert credential secret => upsertManagedCredential host credential secret
  | upsertAfterRefresh credential secret => upsertManagedCredentialAfterRefresh host credential secret
  | updateSecret credentialId payload => updateManagedCredentialSecret host credentialId payload
  | setEnabled credentialId enabled => setManagedCredentialEnabled host credentialId enabled
  | delete credentialId => deleteManagedCredential host credentialId

/-- The id that an operation names. -/
def named : Operation → Text
  | upsert credential _ | upsertAfterRefresh credential _ => credential.managedId
  | updateSecret credentialId _ | setEnabled credentialId _ | delete credentialId => credentialId

/-- What is stored for that id when the operation is through, from what was stored before. -/
def intended : Operation → Option (ManagedCredential × ManagedSecret) →
    Option (ManagedCredential × ManagedSecret)
  | upsert credential secret, old =>
    if credential.managedId = secret.secretManagedId then some (credential, secret) else old
  | upsertAfterRefresh credential secret, old =>
    if credential.managedId = secret.secretManagedId ∧
        ∃ current ∈ old.map Prod.fst, current.managedEnabled = true ∧
          current.managedProvider = credential.managedProvider ∧
          current.managedAuthKind = credential.managedAuthKind then
      some (credential, secret)
    else old
  | updateSecret _ payload, old =>
    old.map fun pair => (pair.1, { pair.2 with secretPayload := payload })
  | setEnabled _ enabled, old =>
    old.map fun pair => ({ pair.1 with managedEnabled := enabled }, pair.2)
  | delete _, _ => none

/-- The secret that an operation rotates. -/
def rotated : Operation → Option ManagedSecret
  | upsertAfterRefresh _ secret => some secret
  | updateSecret credentialId payload => some ⟨credentialId, payload⟩
  | _ => none

end Operation

/-- An operation, and how its steps end.  It is cut off where they run out. -/
structure Call where
  operation : Operation
  endings : List Ending

def Call.run (host : CredentialHost) (call : Call) (disk : Disk) :
    Session × Option (Except Text Unit) :=
  (call.operation.program host).run fileSystem call.endings ⟨disk, []⟩

/-- The disk after calls, each of them cut off anywhere. -/
def diskAfter (host : CredentialHost) (calls : List Call) (disk : Disk) : Disk :=
  calls.foldl (fun disk call => (call.run host disk).1.disk) disk

/-- What may have changed where an operation was cut off. -/
structure Changed (operation : Operation) (old new : Pairs) : Prop where
  others : others operation.named new = others operation.named old
  /-- The old state, the new one, or the new secret beside the old metadata. -/
  named : stored new operation.named = stored old operation.named ∨
    stored new operation.named = operation.intended (stored old operation.named) ∨
    ∃ before after, stored old operation.named = some before ∧
      operation.intended (stored old operation.named) = some after ∧
      stored new operation.named = some (before.1, after.2)

def ManagedCredentialEntry.pair (entry : ManagedCredentialEntry) :
    ManagedCredential × ManagedSecret :=
  (entry.entryCredential, entry.entrySecret)

theorem stored_pairs (entries : List ManagedCredentialEntry) (id : Text) :
    stored (managedCredentialPairs ⟨entries⟩) id = (entryOf entries id).map (·.pair) := by
  rw [stored, managedCredentialPairs, entryOf, List.find?_map]
  congr 2
  funext entry
  rw [comp_apply, entry.credential_id]

theorem others_pairs (entries : List ManagedCredentialEntry) (id : Text) :
    others id (managedCredentialPairs ⟨entries⟩) = (othersOf id entries).map (·.pair) := by
  rw [others, managedCredentialPairs, othersOf, List.filter_map]
  congr 2
  funext entry
  rw [comp_apply, entry.credential_id]

/-! ### An operation that is cut off -/

section Calls

variable {disk : Disk} {entries : List ManagedCredentialEntry} {operation : Operation}

/-- What an operation leaves behind wherever it is cut off. -/
structure Reached (host : CredentialHost) (operation : Operation) (disk : Disk)
    (entries : List ManagedCredentialEntry) (session : Session) : Prop where
  stores : ∃ entries', Stores host session.disk entries' ∧
    Changed operation (managedCredentialPairs ⟨entries⟩) (managedCredentialPairs ⟨entries'⟩) ∧
    (session.written ≠ [] → ∀ secret, operation.rotated = some secret →
      (entryOf entries' operation.named).map (·.entrySecret) = some secret)
  untouched : session.written = [] → session.disk = disk

/-- What it leaves behind where it returns. -/
def Completed (host : CredentialHost) (operation : Operation)
    (entries : List ManagedCredentialEntry) (result : Except Text Unit) (session : Session) : Prop :=
  result = .ok () → ∃ entries', Stores host session.disk entries' ∧
    stored (managedCredentialPairs ⟨entries'⟩) operation.named =
      operation.intended (stored (managedCredentialPairs ⟨entries⟩) operation.named)

theorem Reached.start (h : Stores host disk entries) :
    Reached host operation disk entries ⟨disk, []⟩ :=
  ⟨⟨entries, h, ⟨rfl, .inl rfl⟩, fun h => absurd rfl h⟩, fun _ => rfl⟩

theorem completed_error (err : Text) (session : Session) :
    Completed host operation entries (.error err) session :=
  fun h => nomatch h

theorem keeps_error (h : Stores host disk entries) (err : Text) :
    (CutProgram.done (.error err) : Program (Except Text Unit)).Keeps fileSystem
      (Reached host operation disk entries) (Completed host operation entries) ⟨disk, []⟩ :=
  .of_done (.start h) (completed_error err _)

/-- One entry is replaced where it stands. -/
theorem changed_mapAt {update : ManagedCredentialEntry → ManagedCredentialEntry}
    (hupdate : ∀ e, (update e).entryManagedId = e.entryManagedId)
    (hnamed : ∀ e, entryOf entries operation.named = some e →
      (some (update e).pair = operation.intended (some e.pair) ∨
        ∃ after, operation.intended (some e.pair) = some after ∧
          (update e).pair = (e.pair.1, after.2))) :
    Changed operation (managedCredentialPairs ⟨entries⟩)
      (managedCredentialPairs ⟨mapAt operation.named update entries⟩) where
  others := by rw [others_pairs, others_pairs, othersOf_mapAt hupdate]
  named := by
    rw [stored_pairs, stored_pairs, entryOf_mapAt hupdate]
    cases he : entryOf entries operation.named with
    | none => exact .inl rfl
    | some e =>
      rcases hnamed e he with hnew | ⟨after, hafter, hpair⟩
      · exact .inr (.inl hnew)
      · exact .inr (.inr ⟨e.pair, after, rfl, hafter, congrArg some hpair⟩)

/-- The secrets and then the metadata of a store with one entry replaced or added. -/
theorem keeps_writeUpsert (hlawful : host.Lawful) (h : Stores host disk entries)
    (entry : ManagedCredentialEntry) (hnamed : operation.named = entry.entryManagedId)
    (hintended : operation.intended ((entryOf entries operation.named).map (·.pair)) =
      some entry.pair)
    (hrotated : ∀ secret, operation.rotated = some secret → secret = entry.entrySecret ∧
      ∃ current, entryOf entries operation.named = some current) :
    (writeBoth host (.secrets, (secretsFile (upsertStoreEntry entry ⟨entries⟩)).toJson)
      (.metadata, (metadataFile (upsertStoreEntry entry ⟨entries⟩)).toJson)).Keeps fileSystem
      (Reached host operation disk entries) (Completed host operation entries) ⟨disk, []⟩ := by
  -- between the two writes every entry has its old metadata, and the named one its new secret
  let update : ManagedCredentialEntry → ManagedCredentialEntry :=
    (·.updateSecret entry.entrySecret.secretPayload)
  have hupdate : ∀ e, (update e).entryManagedId = e.entryManagedId := fun _ => rfl
  have hsecret : ∀ e, e.entryManagedId = entry.entryManagedId →
      (update e).entrySecret = entry.entrySecret := by
    intro e he
    have hid : e.entrySecret.secretManagedId = entry.entrySecret.secretManagedId := by
      rw [e.secret_id, entry.secret_id, he]
    show (⟨e.entrySecret.secretManagedId, entry.entrySecret.secretPayload⟩ : ManagedSecret) =
      entry.entrySecret
    rw [hid]
  have hbetween : Stores host
      (disk.put (host.encode (secretsFile (upsertStoreEntry entry ⟨entries⟩)).toJson) .secrets)
      (mapAt operation.named update entries) := by
    refine h.putSecrets hlawful (upsertStoreEntry entry ⟨entries⟩).storeEntries ?_
      (map_id_mapAt hupdate) fun e he => ?_
    · rw [mapAt, List.map_map]
      refine map_congr_left fun e _ => ?_
      rw [comp_apply]
      split <;> rfl
    · obtain ⟨e₀, he₀, rfl⟩ := List.mem_map.mp he
      by_cases hid : e₀.entryManagedId = operation.named
      · rw [if_pos hid, hupdate, hid, hnamed, entryOf_upsert, hsecret e₀ (hid.trans hnamed)]
        rfl
      · rw [if_neg hid, entryOf_upsert_ne (hnamed ▸ hid), entryOf_of_mem h.nodup he₀]
        rfl
  have hbetweenReached : Reached host operation disk entries
      ⟨disk.put (host.encode (secretsFile (upsertStoreEntry entry ⟨entries⟩)).toJson) .secrets,
        [.secrets]⟩ := by
    refine ⟨⟨_, hbetween, changed_mapAt hupdate fun e he => .inr ⟨entry.pair, ?_, ?_⟩, ?_⟩,
      fun h => nomatch h⟩
    · rw [he] at hintended
      exact hintended
    · have hid := (id_of_entryOf he).trans hnamed
      show (e.entryCredential, (update e).entrySecret) = (e.entryCredential, entry.entrySecret)
      rw [hsecret e hid]
    · intro _ secret hs
      obtain ⟨rfl, current, hcurrent⟩ := hrotated secret hs
      rw [entryOf_mapAt hupdate, hcurrent]
      exact congrArg some (hsecret current ((id_of_entryOf hcurrent).trans hnamed))
  have hafter : Stores host ((disk.put
      (host.encode (secretsFile (upsertStoreEntry entry ⟨entries⟩)).toJson) .secrets).put
      (host.encode (metadataFile (upsertStoreEntry entry ⟨entries⟩)).toJson) .metadata)
      (upsertStoreEntry entry ⟨entries⟩).storeEntries :=
    stores_written hlawful (nodup_upsert h.nodup)
  have hstored : stored (managedCredentialPairs ⟨(upsertStoreEntry entry ⟨entries⟩).storeEntries⟩)
      operation.named = some entry.pair := by
    rw [stored_pairs, hnamed, entryOf_upsert]
    rfl
  have hnew : stored (managedCredentialPairs ⟨(upsertStoreEntry entry ⟨entries⟩).storeEntries⟩)
      operation.named =
      operation.intended (stored (managedCredentialPairs ⟨entries⟩) operation.named) := by
    rw [hstored, stored_pairs, hintended]
  refine keeps_writeBoth (.start h) completed_error hbetweenReached ?_ fun _ => ⟨_, hafter, hnew⟩
  refine ⟨⟨_, hafter, ⟨?_, .inr (.inl hnew)⟩, fun _ secret hs => ?_⟩, fun h => nomatch h⟩
  · rw [others_pairs, others_pairs, hnamed, othersOf_upsert]
  · rw [hnamed, entryOf_upsert, (hrotated secret hs).1]
    rfl

/-- The metadata and then the secrets of a store whose entries keep their secrets. -/
theorem keeps_writeMetadataFirst (hlawful : host.Lawful) (h : Stores host disk entries)
    (entries' : List ManagedCredentialEntry)
    (hnodup : (entries'.map (·.entryManagedId)).Nodup)
    (hsecrets : ∀ entry' ∈ entries', ∃ entry ∈ entries,
      entry.entryManagedId = entry'.entryManagedId ∧ entry.entrySecret = entry'.entrySecret)
    (hothers : othersOf operation.named entries' = othersOf operation.named entries)
    (hnamed : (entryOf entries' operation.named).map (·.pair) =
      operation.intended ((entryOf entries operation.named).map (·.pair)))
    (hrotated : operation.rotated = none) :
    (writeBoth host (.metadata, (metadataFile ⟨entries'⟩).toJson)
      (.secrets, (secretsFile ⟨entries'⟩).toJson)).Keeps fileSystem
      (Reached host operation disk entries) (Completed host operation entries) ⟨disk, []⟩ := by
  have hnew : stored (managedCredentialPairs ⟨entries'⟩) operation.named =
      operation.intended (stored (managedCredentialPairs ⟨entries⟩) operation.named) := by
    rw [stored_pairs, stored_pairs, hnamed]
  have hchanged : Changed operation (managedCredentialPairs ⟨entries⟩)
      (managedCredentialPairs ⟨entries'⟩) :=
    ⟨by rw [others_pairs, others_pairs, hothers], .inr (.inl hnew)⟩
  have hno : ∀ {written : List CredentialFile}, written ≠ [] → ∀ secret,
      operation.rotated = some secret →
      (entryOf entries' operation.named).map (·.entrySecret) = some secret := by
    intro written _ secret hs
    rw [hrotated] at hs
    cases hs
  have hboth := stores_written hlawful hnodup
  exact keeps_writeBoth (.start h) completed_error
    ⟨⟨_, h.putMetadata hlawful hnodup hsecrets, hchanged, hno⟩, fun h => nomatch h⟩
    ⟨⟨_, hboth, hchanged, hno⟩, fun h => nomatch h⟩ fun _ => ⟨_, hboth, hnew⟩

theorem managedCredentialEntry_eq_ok {credential : ManagedCredential} {secret : ManagedSecret}
    {entry : ManagedCredentialEntry} (h : managedCredentialEntry credential secret = .ok entry) :
    credential.managedId = secret.secretManagedId ∧ entry.entryManagedId = credential.managedId ∧
      entry.pair = (credential, secret) := by
  rw [managedCredentialEntry] at h
  split at h
  · next hid =>
    cases h
    exact ⟨hid, rfl, rfl⟩
  · cases h

section

variable (hlawful : host.Lawful)
include hlawful

theorem keeps_upsert (h : Stores host disk entries)
    (credential : ManagedCredential) (secret : ManagedSecret) :
    (upsertManagedCredential host credential secret).Keeps fileSystem
      (Reached host (.upsert credential secret) disk entries)
      (Completed host (.upsert credential secret) entries) ⟨disk, []⟩ := by
  rw [upsertManagedCredential]
  cases hentry : managedCredentialEntry credential secret with
  | error err => exact keeps_error h err
  | ok entry =>
    obtain ⟨hids, hid, hpair⟩ := managedCredentialEntry_eq_ok hentry
    refine (keeps_load (.start h) h).bind ?_
    rintro (err | store) t ⟨rfl, hstore⟩
    · exact keeps_error h err
    · obtain rfl := hstore store rfl
      refine keeps_writeUpsert hlawful h entry hid.symm ?_ fun _ hs => nomatch hs
      rw [hpair]
      exact if_pos hids

theorem keeps_upsertAfterRefresh (h : Stores host disk entries)
    (credential : ManagedCredential) (secret : ManagedSecret) :
    (upsertManagedCredentialAfterRefresh host credential secret).Keeps fileSystem
      (Reached host (.upsertAfterRefresh credential secret) disk entries)
      (Completed host (.upsertAfterRefresh credential secret) entries) ⟨disk, []⟩ := by
  rw [upsertManagedCredentialAfterRefresh]
  cases hentry : managedCredentialEntry credential secret with
  | error err => exact keeps_error h err
  | ok entry =>
    obtain ⟨hids, hid, hpair⟩ := managedCredentialEntry_eq_ok hentry
    refine (keeps_load (.start h) h).bind ?_
    rintro (err | store) t ⟨rfl, hstore⟩
    · exact keeps_error h err
    · obtain rfl := hstore store rfl
      simp only []
      split
      · exact keeps_error h _
      · next current hcurrent =>
        split_ifs with hdisabled hother
        · exact keeps_error h _
        · exact keeps_error h _
        · push Not at hother
          have hfound : entryOf entries credential.managedId = some current := hcurrent
          refine keeps_writeUpsert hlawful h entry hid.symm ?_ fun s hs => ?_
          · rw [hpair]
            refine if_pos ⟨hids, current.entryCredential, ?_, by simpa using hdisabled, hother⟩
            show _ ∈ ((entryOf entries credential.managedId).map _).map _
            rw [hfound]
            rfl
          · cases hs
            exact ⟨(congrArg Prod.snd hpair).symm, current, hfound⟩

theorem keeps_updateSecret (h : Stores host disk entries)
    (credentialId payload : Text) :
    (updateManagedCredentialSecret host credentialId payload).Keeps fileSystem
      (Reached host (.updateSecret credentialId payload) disk entries)
      (Completed host (.updateSecret credentialId payload) entries) ⟨disk, []⟩ := by
  refine (keeps_load (.start h) h).bind ?_
  rintro (err | store) t ⟨rfl, hstore⟩
  · exact keeps_error h err
  obtain rfl := hstore store rfl
  simp only [updateStoreEntries]
  split_ifs with hany
  swap
  · exact keeps_error h _
  let update : ManagedCredentialEntry → ManagedCredentialEntry := (·.updateSecret payload)
  have hupdate : ∀ e, (update e).entryManagedId = e.entryManagedId := fun _ => rfl
  have hafter : Stores host (disk.put (host.encode
      (secretsFile ⟨mapAt credentialId update entries⟩).toJson) .secrets)
      (mapAt credentialId update entries) := by
    refine h.putSecrets hlawful _ ?_ (map_id_mapAt hupdate) fun e he => ?_
    · rw [mapAt, List.map_map]
      refine map_congr_left fun e _ => ?_
      rw [comp_apply]
      split <;> rfl
    · have hnodup : ((mapAt credentialId update entries).map (·.entryManagedId)).Nodup := by
        rw [map_id_mapAt hupdate]
        exact h.nodup
      rw [entryOf_of_mem hnodup he]
      rfl
  have hintended : stored (managedCredentialPairs ⟨mapAt credentialId update entries⟩)
      credentialId =
      (stored (managedCredentialPairs ⟨entries⟩) credentialId).map
        fun pair => (pair.1, { pair.2 with secretPayload := payload }) := by
    rw [stored_pairs, stored_pairs, entryOf_mapAt hupdate, Option.map_map, Option.map_map]
    rfl
  refine keeps_writePrivateJson (.start h) (fun err => completed_error err _)
    ⟨⟨⟨_, hafter, ⟨?_, .inr (.inl hintended)⟩, fun _ secret hs => ?_⟩, fun h => nomatch h⟩,
      fun _ => ⟨_, hafter, hintended⟩⟩
  · rw [others_pairs, others_pairs]
    exact congrArg (List.map _) (othersOf_mapAt hupdate)
  · cases hs
    obtain ⟨e, he, hid⟩ := List.any_eq_true.mp hany
    rw [decide_eq_true_eq] at hid
    subst hid
    show (entryOf (mapAt e.entryManagedId update entries) e.entryManagedId).map _ = _
    rw [entryOf_mapAt hupdate, entryOf_of_mem h.nodup he, ← e.secret_id]
    rfl

theorem keeps_setEnabled (h : Stores host disk entries)
    (credentialId : Text) (enabled : Bool) :
    (setManagedCredentialEnabled host credentialId enabled).Keeps fileSystem
      (Reached host (.setEnabled credentialId enabled) disk entries)
      (Completed host (.setEnabled credentialId enabled) entries) ⟨disk, []⟩ := by
  refine (keeps_load (.start h) h).bind ?_
  rintro (err | store) t ⟨rfl, hstore⟩
  · exact keeps_error h err
  obtain rfl := hstore store rfl
  let update : ManagedCredentialEntry → ManagedCredentialEntry := (·.setEnabled enabled)
  have hupdate : ∀ e, (update e).entryManagedId = e.entryManagedId := fun _ => rfl
  refine keeps_writeMetadataFirst hlawful h (mapAt credentialId update entries) ?_ ?_
    (othersOf_mapAt hupdate) ?_ rfl
  · rw [map_id_mapAt hupdate]
    exact h.nodup
  · intro e he
    obtain ⟨e₀, he₀, rfl⟩ := List.mem_map.mp he
    refine ⟨e₀, he₀, ?_⟩
    split <;> exact ⟨rfl, rfl⟩
  · show (entryOf (mapAt credentialId update entries) credentialId).map _ = _
    rw [entryOf_mapAt hupdate, Option.map_map]
    show _ = ((entryOf entries credentialId).map _).map _
    rw [Option.map_map]
    rfl

theorem keeps_delete (h : Stores host disk entries) (credentialId : Text) :
    (deleteManagedCredential host credentialId).Keeps fileSystem
      (Reached host (.delete credentialId) disk entries)
      (Completed host (.delete credentialId) entries) ⟨disk, []⟩ := by
  refine (keeps_load (.start h) h).bind ?_
  rintro (err | store) t ⟨rfl, hstore⟩
  · exact keeps_error h err
  obtain rfl := hstore store rfl
  refine keeps_writeMetadataFirst hlawful h (othersOf credentialId entries)
    (h.nodup.sublist (filter_sublist.map _))
    (fun e he => ⟨e, mem_of_mem_filter he, rfl, rfl⟩) othersOf_othersOf ?_ rfl
  have hnone : entryOf (othersOf credentialId entries) credentialId = none :=
    entryOf_eq_none fun e he => ne_of_mem_othersOf he
  exact congrArg (Option.map _) hnone

/-- Every operation, wherever it is cut off. -/
theorem keeps_operation (h : Stores host disk entries)
    (operation : Operation) :
    (operation.program host).Keeps fileSystem (Reached host operation disk entries)
      (Completed host operation entries) ⟨disk, []⟩ := by
  cases operation with
  | upsert credential secret => exact keeps_upsert hlawful h credential secret
  | upsertAfterRefresh credential secret => exact keeps_upsertAfterRefresh hlawful h credential secret
  | updateSecret credentialId payload => exact keeps_updateSecret hlawful h credentialId payload
  | setEnabled credentialId enabled => exact keeps_setEnabled hlawful h credentialId enabled
  | delete credentialId => exact keeps_delete hlawful h credentialId

end

end Calls

/-! ### Runs of operations -/

/-- What the store loads as where reading the files succeeds. -/
def Loads (host : CredentialHost) (disk : Disk) (pairs : Pairs) : Prop :=
  ((loadManagedCredentials host).run fileSystem [.succeeds, .succeeds] ⟨disk, []⟩).2 =
    some (.ok pairs)

theorem stores_call (hlawful : host.Lawful) {disk : Disk} {entries : List ManagedCredentialEntry}
    (h : Stores host disk entries) (call : Call) :
    Reached host call.operation disk entries (call.run host disk).1 ∧
      ∀ result, (call.run host disk).2 = some result →
        Completed host call.operation entries result (call.run host disk).1 :=
  (keeps_operation hlawful h call.operation).run call.endings

theorem stored_others {id named : Text} (hne : id ≠ named) (pairs : Pairs) :
    stored (others named pairs) id = stored pairs id := by
  rw [stored, others, List.find?_filter, stored]
  congr 1
  funext pair
  by_cases hid : pair.1.managedId = id
  · simp [hid, hne]
  · simp [hid]

/-- Nothing is changed for an id that is not named. -/
theorem Changed.stored_eq {operation : Operation} {old new : Pairs} (h : Changed operation old new)
    {id : Text} (hne : id ≠ operation.named) : stored new id = stored old id := by
  rw [← stored_others hne new, h.others, stored_others hne old]

/-- Calls that do not name an id leave what is stored for it. -/
theorem stores_diskAfter (hlawful : host.Lawful) (calls : List Call) {disk : Disk}
    {entries : List ManagedCredentialEntry} (h : Stores host disk entries) :
    ∃ entries', Stores host (diskAfter host calls disk) entries' ∧
      ∀ id, (∀ call ∈ calls, call.operation.named ≠ id) →
        stored (managedCredentialPairs ⟨entries'⟩) id =
          stored (managedCredentialPairs ⟨entries⟩) id := by
  induction calls generalizing disk entries with
  | nil => exact ⟨entries, h, fun _ _ => rfl⟩
  | cons call calls ih =>
    obtain ⟨between, hbetween, hchanged, -⟩ := (stores_call hlawful h call).1.stores
    obtain ⟨entries', hentries', hsame⟩ := ih hbetween
    refine ⟨entries', hentries', fun id hid => ?_⟩
    rw [hsame id fun c hc => hid c (mem_cons_of_mem _ hc)]
    exact hchanged.stored_eq (hid call mem_cons_self).symm

theorem Stores.unique {disk : Disk} {entries' : List ManagedCredentialEntry}
    (h : Stores host disk entries) (h' : Stores host disk entries') :
    managedCredentialPairs ⟨entries⟩ = managedCredentialPairs ⟨entries'⟩ :=
  Except.ok.inj (some.inj ((run_load h).symm.trans (run_load h')))

/-- **The store can be loaded after every crash, and only the credential that the interrupted
operation names may have changed**: to what the operation is meant to store, or to its old metadata
with the new secret. -/
theorem credential_store_survives_crash (hlawful : host.Lawful) (history : List Call)
    (call : Call) :
    ∃ old new, Loads host (diskAfter host history .empty) old ∧
      Loads host (call.run host (diskAfter host history .empty)).1.disk new ∧
      (new.map (·.1.managedId)).Nodup ∧
      Changed call.operation old new ∧
      ((call.run host (diskAfter host history .empty)).2 = some (.ok ()) →
        stored new call.operation.named =
          call.operation.intended (stored old call.operation.named)) ∧
      (∀ err, (call.run host (diskAfter host history .empty)).2 = some (.error err) →
        (call.run host (diskAfter host history .empty)).1.written = [] →
        (call.run host (diskAfter host history .empty)).1.disk =
          diskAfter host history .empty) ∧
      ((call.run host (diskAfter host history .empty)).1.written ≠ [] →
        ∀ secret, call.operation.rotated = some secret →
        ∀ later : List Call, (∀ c ∈ later, c.operation.named ≠ call.operation.named) →
        ∃ pairs, Loads host
            (diskAfter host later (call.run host (diskAfter host history .empty)).1.disk) pairs ∧
          (stored pairs call.operation.named).map Prod.snd = some secret) := by
  obtain ⟨entries, hentries, -⟩ := stores_diskAfter hlawful history (stores_empty host)
  generalize diskAfter host history .empty = disk at hentries ⊢
  obtain ⟨⟨⟨entries', hentries', hchanged, hrotated⟩, huntouched⟩, hcompleted⟩ :=
    stores_call hlawful hentries call
  refine ⟨_, _, run_load hentries, run_load hentries', ?_, hchanged, fun hok => ?_,
    fun _ _ => huntouched, fun hwritten secret hs later hlater => ?_⟩
  · have hids : (managedCredentialPairs ⟨entries'⟩).map (·.1.managedId) =
        entries'.map (·.entryManagedId) := by
      rw [managedCredentialPairs, List.map_map]
      exact map_congr_left fun e _ => e.credential_id
    rw [hids]
    exact hentries'.nodup
  · obtain ⟨entries'', hentries'', hnew⟩ := hcompleted _ hok rfl
    rw [hentries'.unique hentries'', hnew]
  · obtain ⟨entries'', hentries'', hsame⟩ := stores_diskAfter hlawful later hentries'
    refine ⟨_, run_load hentries'', ?_⟩
    rw [hsame _ hlater, stored_pairs, Option.map_map]
    exact hrotated hwritten secret hs

/-- A host whose JSON library is the reader and the writer of this development. -/
def exampleHost : CredentialHost where
  renderNumber := Json.writeNumber
  parse := Json.read
  jsonErrorMessage _ := []
  home := "/home/user".toList

def exampleCredential : ManagedCredential where
  managedId := "grok-1".toList
  managedProvider := .xai
  managedAccountId := "account".toList
  managedLabel := "Grok".toList
  managedBilling := .subscription
  managedAuthKind := .grokAuthJson
  managedEnabled := true

/-- A refresh that is cut off between its writes. -/
theorem credential_store_survives_crash_refresh :
    ∃ pairs, Loads exampleHost
      (Call.run exampleHost
        ⟨.upsertAfterRefresh exampleCredential ⟨"grok-1".toList, "rotated".toList⟩,
          [.succeeds, .succeeds, .succeeds]⟩
        (diskAfter exampleHost
          [⟨.upsert exampleCredential ⟨"grok-1".toList, "first".toList⟩,
            [.succeeds, .succeeds, .succeeds, .succeeds]⟩] .empty)).1.disk pairs := by
  have hlawful : exampleHost.Lawful := ⟨Json.read_render, Json.norm_read⟩
  obtain ⟨-, pairs, -, h, -⟩ := credential_store_survives_crash hlawful
    [⟨.upsert exampleCredential ⟨"grok-1".toList, "first".toList⟩,
      [.succeeds, .succeeds, .succeeds, .succeeds]⟩]
    ⟨.upsertAfterRefresh exampleCredential ⟨"grok-1".toList, "rotated".toList⟩,
      [.succeeds, .succeeds, .succeeds]⟩
  exact ⟨pairs, h⟩

end HaskellAgent.Accounts
