import HaskellAgent.Lib.CutPrograms
import HaskellAgent.Responses.JsonMembers

/-!
# The credential store

Managed credentials are kept in two files, their metadata and their secrets, which are joined by id
when they are loaded.  Every operation loads the store and replaces the two files one after the
other, each of them atomically, in an order of its own.

What holds while the lock of the store is held is a program that can be cut off: an operation on a
file may fail, and the process may end before it.

## Main definitions

* `ManagedCredential`, `ManagedSecret`, `ManagedCredentialEntry` — the data.
* `Disk`, `FileOperation`, `fileSystem` — the two files.
* `loadManagedCredentials`, `upsertManagedCredential`, … — the operations.
-/

namespace HaskellAgent.Accounts

open HaskellAgent.Wire

/-! ### Data -/

inductive Provider
  | openAI
  | xai
  | openRouter
  | gemini
  | claudeCode
deriving DecidableEq

def providerSlug : Provider → Text
  | .openAI => "openai".toList
  | .xai => "xai".toList
  | .openRouter => "openrouter".toList
  | .gemini => "gemini".toList
  | .claudeCode => "claude-code".toList

def parseProvider (text : Text) : Option Provider :=
  if text = "openai".toList then some .openAI
  else if text = "xai".toList then some .xai
  else if text = "openrouter".toList then some .openRouter
  else if text = "gemini".toList then some .gemini
  else if text = "google".toList then some .gemini
  else if text = "claude-code".toList then some .claudeCode
  else if text = "claude".toList then some .claudeCode
  else none

inductive BillingMode
  | subscription
  | api
deriving DecidableEq

inductive ManagedAuthKind
  | bearerToken
  | openAIAuthJson
  | grokAuthJson
  | geminiAuthJson
deriving DecidableEq

structure ManagedCredential where
  managedId : Text
  managedProvider : Provider
  managedAccountId : Text
  managedLabel : Text
  managedBilling : BillingMode
  managedAuthKind : ManagedAuthKind
  managedEnabled : Bool
deriving DecidableEq

structure ManagedSecret where
  secretManagedId : Text
  secretPayload : Text
deriving DecidableEq

/-- The metadata and the secret of one credential. -/
structure ManagedCredentialEntry where
  entryManagedId : Text
  entryCredential : ManagedCredential
  entrySecret : ManagedSecret
  credential_id : entryCredential.managedId = entryManagedId
  secret_id : entrySecret.secretManagedId = entryManagedId
deriving DecidableEq

structure ManagedCredentialStore where
  storeEntries : List ManagedCredentialEntry
deriving DecidableEq

structure MetadataFile where
  metadataVersion : ℤ
  metadataAccounts : List ManagedCredential
deriving DecidableEq

structure SecretsFile where
  secretsVersion : ℤ
  storedSecrets : List ManagedSecret
deriving DecidableEq

/-! ### The JSON of the files -/

/-- A member with the same default for missing and `null`. -/
def defaultKey {α : Type} (fallback : α) (key : String) (decoder : Decoder α) : FieldsDecoder α :=
  fun members => (optionalAtKey key decoder members).map (Option.getD · fallback)

def BillingMode.toJson : BillingMode → Json
  | .subscription => string "subscription"
  | .api => string "api_credits"

def billingModeDecoder : Decoder BillingMode := fun v =>
  (Hermes.text v).bind fun text =>
    if text = "subscription".toList then some .subscription
    else if text = "api_credits".toList then some .api
    else none

def ManagedAuthKind.toJson : ManagedAuthKind → Json
  | .bearerToken => string "bearer"
  | .openAIAuthJson => string "openai_oauth"
  | .grokAuthJson => string "grok_oauth"
  | .geminiAuthJson => string "gemini_oauth"

def managedAuthKindDecoder : Decoder ManagedAuthKind := fun v =>
  (Hermes.text v).bind fun text =>
    if text = "bearer".toList then some .bearerToken
    else if text = "openai_oauth".toList then some .openAIAuthJson
    else if text = "grok_oauth".toList then some .grokAuthJson
    else if text = "gemini_oauth".toList then some .geminiAuthJson
    else none

def ManagedCredential.toJson (credential : ManagedCredential) : Json :=
  objectWith
    [field "id" (.string credential.managedId),
      field "provider" (.string (providerSlug credential.managedProvider)),
      field "account_id" (.string credential.managedAccountId),
      field "label" (.string credential.managedLabel),
      field "billing" credential.managedBilling.toJson,
      field "auth_kind" credential.managedAuthKind.toJson,
      field "enabled" (.bool credential.managedEnabled)]

def managedCredentialDecoder : Decoder ManagedCredential :=
  Hermes.object fun members => do
    let providerText ← Hermes.atKey "provider" Hermes.text members
    let managedProvider ← parseProvider providerText
    let managedId ← Hermes.atKey "id" Hermes.text members
    let managedAccountId ← Hermes.atKey "account_id" Hermes.text members
    let managedLabel ← Hermes.atKey "label" Hermes.text members
    let managedBilling ← Hermes.atKey "billing" billingModeDecoder members
    let managedAuthKind ← Hermes.atKey "auth_kind" managedAuthKindDecoder members
    let managedEnabled ← defaultKey true "enabled" Hermes.bool members
    pure { managedId, managedProvider, managedAccountId, managedLabel, managedBilling,
           managedAuthKind, managedEnabled }

def ManagedSecret.toJson (secret : ManagedSecret) : Json :=
  objectWith
    [field "id" (.string secret.secretManagedId), field "payload" (.string secret.secretPayload)]

def managedSecretDecoder : Decoder ManagedSecret :=
  Hermes.object fun members => do
    let secretManagedId ← Hermes.atKey "id" Hermes.text members
    let secretPayload ← Hermes.atKey "payload" Hermes.text members
    pure { secretManagedId, secretPayload }

def MetadataFile.toJson (file : MetadataFile) : Json :=
  objectWith
    [field "version" (integer file.metadataVersion),
      field "accounts" (listOf ManagedCredential.toJson file.metadataAccounts)]

def metadataFileDecoder : Decoder MetadataFile :=
  Hermes.object fun members => do
    let metadataVersion ← defaultKey 1 "version" Hermes.int members
    let metadataAccounts ← defaultKey [] "accounts" (Hermes.list managedCredentialDecoder) members
    pure { metadataVersion, metadataAccounts }

def SecretsFile.toJson (file : SecretsFile) : Json :=
  objectWith
    [field "version" (integer file.secretsVersion),
      field "secrets" (listOf ManagedSecret.toJson file.storedSecrets)]

def secretsFileDecoder : Decoder SecretsFile :=
  Hermes.object fun members => do
    let secretsVersion ← defaultKey 1 "version" Hermes.int members
    let storedSecrets ← defaultKey [] "secrets" (Hermes.list managedSecretDecoder) members
    pure { secretsVersion, storedSecrets }

/-! ### Entries -/

def managedCredentialEntry (credential : ManagedCredential) (secret : ManagedSecret) :
    Except Text ManagedCredentialEntry :=
  if h : credential.managedId = secret.secretManagedId then
    .ok
      { entryManagedId := credential.managedId
        entryCredential := credential
        entrySecret := secret
        credential_id := rfl
        secret_id := h.symm }
  else
    .error "managed credential metadata and secret ids do not match".toList

def managedCredentialPairs (store : ManagedCredentialStore) :
    List (ManagedCredential × ManagedSecret) :=
  store.storeEntries.map fun entry => (entry.entryCredential, entry.entrySecret)

def metadataFile (store : ManagedCredentialStore) : MetadataFile :=
  ⟨1, store.storeEntries.map (·.entryCredential)⟩

def secretsFile (store : ManagedCredentialStore) : SecretsFile :=
  ⟨1, store.storeEntries.map (·.entrySecret)⟩

def upsertStoreEntry (entry : ManagedCredentialEntry) (store : ManagedCredentialStore) :
    ManagedCredentialStore :=
  ⟨entry :: store.storeEntries.filter fun e => e.entryManagedId ≠ entry.entryManagedId⟩

def mapStoreEntries (update : ManagedCredentialEntry → ManagedCredentialEntry)
    (store : ManagedCredentialStore) : ManagedCredentialStore :=
  ⟨store.storeEntries.map update⟩

def updateStoreEntries (credentialId : Text)
    (update : ManagedCredentialEntry → ManagedCredentialEntry) (store : ManagedCredentialStore) :
    Option ManagedCredentialStore :=
  if store.storeEntries.any (fun e => e.entryManagedId = credentialId) then
    some (mapStoreEntries (fun e => if e.entryManagedId = credentialId then update e else e) store)
  else
    none

def deleteStoreEntries (credentialId : Text) (store : ManagedCredentialStore) :
    ManagedCredentialStore :=
  ⟨store.storeEntries.filter fun e => e.entryManagedId ≠ credentialId⟩

/-! ### The files -/

inductive CredentialFile
  | metadata
  | secrets
deriving DecidableEq

/-- The two files; one that does not exist is `none`. -/
structure Disk where
  metadata : Option Text
  secrets : Option Text
deriving DecidableEq

def Disk.empty : Disk := ⟨none, none⟩

def Disk.get (disk : Disk) : CredentialFile → Option Text
  | .metadata => disk.metadata
  | .secrets => disk.secrets

def Disk.put (disk : Disk) (bytes : Text) : CredentialFile → Disk
  | .metadata => { disk with metadata := some bytes }
  | .secrets => { disk with secrets := some bytes }

inductive FileOperation
  | read (file : CredentialFile)
  | write (file : CredentialFile) (bytes : Text)

/-- What an operation gives back: the text of an exception, or the bytes of a file that exists. -/
abbrev Reply := Except Text (Option Text)

inductive Ending
  | succeeds
  | fails (exception : Text)

/-- The disk, and the files the running operation has replaced. -/
structure Session where
  disk : Disk
  written : List CredentialFile
deriving DecidableEq

/-- A file that does not exist is not opened.  A file is replaced atomically. -/
def fileSystem (session : Session) : FileOperation → Ending → Session × Option Reply
  | .read file, .succeeds => (session, some (.ok (session.disk.get file)))
  | .read file, .fails exception =>
    (session, some (match session.disk.get file with
      | none => .ok none
      | some _ => .error exception))
  | .write file bytes, .succeeds =>
    (⟨session.disk.put bytes file, session.written ++ [file]⟩, some (.ok none))
  | .write _ _, .fails exception => (session, some (.error exception))

abbrev Program := CutProgram FileOperation Reply

/-! ### The operations -/

/-- The JSON library, the text of its errors, and the home directory. -/
structure CredentialHost extends JsonCodec where
  jsonErrorMessage : Text → Text
  home : Text

section Operations

variable (host : CredentialHost)

def pathJoin (directory name : Text) : Text :=
  if directory = [] then name
  else if directory.getLast? = some '/' then directory ++ name
  else directory ++ '/' :: name

def managedCredentialsPath : Text :=
  pathJoin (pathJoin (pathJoin host.home ".haskell-agent".toList) "credentials".toList)
    "accounts.json".toList

def managedSecretsPath : Text :=
  pathJoin (pathJoin (pathJoin host.home ".haskell-agent".toList) "credentials".toList)
    "secrets.json".toList

def CredentialFile.path : CredentialFile → Text
  | .metadata => managedCredentialsPath host
  | .secrets => managedSecretsPath host

def decodeFileOrEmpty {α : Type} (decoder : Decoder α) (file : CredentialFile) (empty : α) :
    Program (Except Text α) :=
  .perform (.read file) fun
    | .error exception =>
      .done (.error ("could not read ".toList ++ file.path host ++ ": ".toList ++ exception))
    | .ok none => .done (.ok empty)
    | .ok (some bytes) =>
      match (host.parse bytes).bind decoder with
      | none =>
        .done (.error ("invalid credential store ".toList ++ file.path host ++ ": ".toList ++
          host.jsonErrorMessage bytes))
      | some value => .done (.ok value)

def writePrivateJson (file : CredentialFile) (value : Json) : Program (Except Text Unit) :=
  .perform (.write file (host.encode value)) fun
    | .error exception =>
      .done (.error ("could not write ".toList ++ file.path host ++ ": ".toList ++ exception))
    | .ok _ => .done (.ok ())

def attachSecret (secrets : List ManagedSecret) (credential : ManagedCredential) :
    Except Text ManagedCredentialEntry :=
  match secrets.find? fun secret => secret.secretManagedId = credential.managedId with
  | none =>
    .error ("missing secret for managed credential ".toList ++ credential.managedId)
  | some secret => managedCredentialEntry credential secret

/-- The accounts of the one file with the secrets of the other. -/
def joinFiles (metadataResult : Except Text MetadataFile) (secretsResult : Except Text SecretsFile) :
    Except Text ManagedCredentialStore := do
  let metadata ← metadataResult
  let secrets ← secretsResult
  let entries ← metadata.metadataAccounts.mapM (attachSecret secrets.storedSecrets)
  pure ⟨entries⟩

def loadManagedCredentialStoreUnlocked : Program (Except Text ManagedCredentialStore) := do
  let metadataResult ← decodeFileOrEmpty host metadataFileDecoder .metadata ⟨1, []⟩
  let secretsResult ← decodeFileOrEmpty host secretsFileDecoder .secrets ⟨1, []⟩
  pure (joinFiles metadataResult secretsResult)

def loadManagedCredentials : Program (Except Text (List (ManagedCredential × ManagedSecret))) := do
  let loaded ← loadManagedCredentialStoreUnlocked host
  pure (loaded.map managedCredentialPairs)

/-- One file and then the other; the second is left out where the first one fails. -/
def writeBoth (first second : CredentialFile × Json) : Program (Except Text Unit) := do
  match ← writePrivateJson host first.1 first.2 with
  | .error err => pure (.error err)
  | .ok () => writePrivateJson host second.1 second.2

def mutateStoreSecretFirst (update : ManagedCredentialStore → ManagedCredentialStore) :
    Program (Except Text Unit) := do
  match ← loadManagedCredentialStoreUnlocked host with
  | .error err => pure (.error err)
  | .ok store =>
    writeBoth host (.secrets, (secretsFile (update store)).toJson)
      (.metadata, (metadataFile (update store)).toJson)

def mutateStore (update : ManagedCredentialStore → ManagedCredentialStore) :
    Program (Except Text Unit) := do
  match ← loadManagedCredentialStoreUnlocked host with
  | .error err => pure (.error err)
  | .ok store =>
    writeBoth host (.metadata, (metadataFile (update store)).toJson)
      (.secrets, (secretsFile (update store)).toJson)

def upsertManagedCredential (credential : ManagedCredential) (secret : ManagedSecret) :
    Program (Except Text Unit) :=
  match managedCredentialEntry credential secret with
  | .error err => pure (.error err)
  | .ok entry => mutateStoreSecretFirst host (upsertStoreEntry entry)

def upsertManagedCredentialAfterRefresh (credential : ManagedCredential) (secret : ManagedSecret) :
    Program (Except Text Unit) :=
  match managedCredentialEntry credential secret with
  | .error err => pure (.error err)
  | .ok refreshedEntry => do
    match ← loadManagedCredentialStoreUnlocked host with
    | .error err => pure (.error err)
    | .ok store =>
      match store.storeEntries.find? fun e => e.entryManagedId = credential.managedId with
      | none =>
        pure (.error ("managed credential ".toList ++ credential.managedId ++
          " no longer exists during refresh".toList))
      | some current =>
        if current.entryCredential.managedEnabled = false then
          pure (.error ("managed credential ".toList ++ credential.managedId ++
            " is disabled".toList))
        else if current.entryCredential.managedProvider ≠ credential.managedProvider ∨
            current.entryCredential.managedAuthKind ≠ credential.managedAuthKind then
          pure (.error ("managed credential ".toList ++ credential.managedId ++
            " changed auth type during refresh".toList))
        else
          writeBoth host (.secrets, (secretsFile (upsertStoreEntry refreshedEntry store)).toJson)
            (.metadata, (metadataFile (upsertStoreEntry refreshedEntry store)).toJson)

/-- The entry with its credential enabled or disabled. -/
def ManagedCredentialEntry.setEnabled (entry : ManagedCredentialEntry) (enabled : Bool) :
    ManagedCredentialEntry :=
  { entry with
    entryCredential := { entry.entryCredential with managedEnabled := enabled }
    credential_id := entry.credential_id }

/-- The entry with another secret. -/
def ManagedCredentialEntry.updateSecret (entry : ManagedCredentialEntry) (payload : Text) :
    ManagedCredentialEntry :=
  { entry with
    entrySecret := { entry.entrySecret with secretPayload := payload }
    secret_id := entry.secret_id }

def setManagedCredentialEnabled (credentialId : Text) (enabled : Bool) :
    Program (Except Text Unit) :=
  mutateStore host (mapStoreEntries fun entry =>
    if entry.entryManagedId = credentialId then entry.setEnabled enabled else entry)

def updateManagedCredentialSecret (credentialId payload : Text) : Program (Except Text Unit) := do
  match ← loadManagedCredentialStoreUnlocked host with
  | .error err => pure (.error err)
  | .ok store =>
    match updateStoreEntries credentialId (·.updateSecret payload) store with
    | none =>
      pure (.error ("managed credential secret ".toList ++ credentialId ++
        " no longer exists".toList))
    | some store' => writePrivateJson host .secrets (secretsFile store').toJson

def deleteManagedCredential (credentialId : Text) : Program (Except Text Unit) :=
  mutateStore host (deleteStoreEntries credentialId)

end Operations

end HaskellAgent.Accounts
