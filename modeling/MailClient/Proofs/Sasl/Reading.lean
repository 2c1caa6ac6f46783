import Mathlib.Data.List.Basic
import MailClient.Proofs.Text.Base64
import MailClient.Sasl.Payload

/-! What a server reads in the messages of PLAIN, XOAUTH2 and OAUTHBEARER. It goes by the separators
and looks at nothing else in a name or a secret. Both are read as they were, except that a separator
in them has no other form in which it could be written. -/
namespace MailClient.Sasl.Server

def text? (message : String) : Option (List Char) :=
  (Base64.decodeText message).toOption.bind fun bytes => (Text.Utf8.text? bytes).map String.toList

def upTo? (separator : Char) : List Char → Option (List Char × List Char)
  | [] => none
  | c :: cs =>
    if c = separator then some ([], cs)
    else (upTo? separator cs).map fun (before, behind) => (c :: before, behind)

/-- RFC 4616: the identity that is acted for, the user and the password. No user may act for
another. -/
def plain? (message : String) : Option (String × String) :=
  (text? message).bind fun text =>
    match text.splitOn '\x00' with
    | [authorization, user, password] =>
      if authorization = [] ∨ authorization = user then
        some (String.ofList user, String.ofList password)
      else none
    | _ => none

def isKey (key : List Char) : Bool := !key.isEmpty && key.all Char.isAlpha

def field? (text : List Char) : Option (List Char × List Char) :=
  (upTo? '=' text).filter fun (key, _) => isKey key

def fieldsOf? : List (List Char) → Option (List (List Char × List Char))
  | [] => none
  | [[], []] => some []
  | part :: parts => do
    let field ← field? part
    let fields ← fieldsOf? parts
    return field :: fields

def fields? (text : List Char) : Option (List (List Char × List Char)) :=
  fieldsOf? (text.splitOn '\x01')

def token? (fields : List (List Char × List Char)) : Option (List Char) :=
  (fields.lookup "auth".toList).bind fun value => value.dropPrefix? "Bearer ".toList

def xoauth2? (message : String) : Option (String × String) := do
  let fields ← (text? message).bind fields?
  let user ← fields.lookup "user".toList
  let token ← token? fields
  return (String.ofList user, String.ofList token)

/-- RFC 5801: in a name an equals sign begins the other form of a comma or of an equals sign. -/
def name? : List Char → Option (List Char)
  | [] => some []
  | '=' :: '2' :: 'C' :: cs => (name? cs).map (',' :: ·)
  | '=' :: '3' :: 'D' :: cs => (name? cs).map ('=' :: ·)
  | c :: cs => if c = '=' then none else (name? cs).map (c :: ·)

/-- RFC 7628: whether the channel is bound, the name of the user, and fields. -/
def oauthBearer? (message : String) : Option (String × String) := do
  let (binding, text) ← (text? message).bind (upTo? ',')
  let (authorization, text) ← upTo? ',' text
  match authorization, text with
  | 'a' :: '=' :: name, '\x01' :: text =>
    if binding = ['n'] ∨ binding = ['y'] ∨ ['p', '='] <+: binding then
      let user ← name? name
      let token ← (fields? text).bind token?
      return (String.ofList user, String.ofList token)
    else none
  | _, _ => none

variable {user secret : String} {cs text value : List Char} {c : Char}

/-! ### Texts and their parts -/

theorem text?_encode (s : String) : text? (Payload.encode s) = some s.toList := by
  simp [text?, Payload.encode, Base64.decodeText_encodeText, Except.toOption]

theorem upTo?_append (h : c ∉ cs) (text : List Char) :
    upTo? c (cs ++ c :: text) = some (cs, text) := by
  induction cs with
  | nil => exact if_pos rfl
  | cons d cs ih =>
    obtain ⟨hd, hcs⟩ := not_or.mp (List.mem_cons.not.mp h)
    rw [List.cons_append, upTo?, if_neg (Ne.symm hd), ih hcs]
    rfl

theorem not_mem_of_mem_splitOn (h : cs ∈ text.splitOn c) : c ∉ cs := by
  induction hn : text.length using Nat.strongRecOn generalizing text with
  | ind n ih =>
    by_cases hc : c ∈ text
    · obtain ⟨front, rest, rfl, free⟩ := List.eq_append_cons_of_mem hc
      rw [List.splitOn_append_cons_self_of_not_mem free] at h
      rcases List.mem_cons.mp h with rfl | h
      · exact free
      · exact ih rest.length (by simp at hn; omega) h rfl
    · rw [List.splitOn_eq_singleton hc, List.mem_singleton] at h
      rwa [h]

theorem mem_of_upTo? {before : List Char} (h : upTo? c text = some (before, cs)) {d : Char}
    (hd : d ∈ cs) : d ∈ text := by
  induction text generalizing before with
  | nil => cases h
  | cons e text ih =>
    unfold upTo? at h
    split at h
    · cases h
      exact List.mem_cons_of_mem _ hd
    · obtain ⟨⟨before', cs'⟩, hu, he⟩ := Option.map_eq_some_iff.mp h
      cases he
      exact List.mem_cons_of_mem _ (ih hu)

/-! ### A name and a password -/

theorem toList_plain (user secret : String) :
    ("\x00" ++ user ++ "\x00" ++ secret).toList =
      [] ++ '\x00' :: (user.toList ++ '\x00' :: secret.toList) := by
  simp

theorem plain?_plain (hu : '\x00' ∉ user.toList) (hs : '\x00' ∉ secret.toList) :
    plain? (Payload.plain user secret) = some (user, secret) := by
  have parts : ([] ++ '\x00' :: (user.toList ++ '\x00' :: secret.toList)).splitOn '\x00' =
      [[], user.toList, secret.toList] := by
    rw [List.splitOn_append_cons_self_of_not_mem List.not_mem_nil,
      List.splitOn_append_cons_self_of_not_mem hu, List.splitOn_eq_singleton hs]
  rw [plain?, Payload.plain, text?_encode, toList_plain, Option.bind_some, parts]
  simp

theorem free_of_plain? {message : String} (h : plain? message = some (user, secret)) :
    '\x00' ∉ user.toList ∧ '\x00' ∉ secret.toList := by
  obtain ⟨text, -, h⟩ := Option.bind_eq_some_iff.mp h
  split at h
  next authorization user' password parts =>
    split at h
    · cases h
      have free : ∀ part ∈ text.splitOn '\x00', '\x00' ∉ part := fun _ => not_mem_of_mem_splitOn
      rw [parts] at free
      simp only [List.mem_cons, List.not_mem_nil, or_false, forall_eq_or_imp, forall_eq] at free
      simpa using free.2
    · cases h
  next => cases h

/-! ### Fields -/

theorem free_of_field? {field : List Char × List Char} (h : field? text = some field)
    (free : c ∉ text) : c ∉ field.2 := by
  obtain ⟨found, -⟩ := Option.filter_eq_some_iff.mp h
  exact fun hc => free (mem_of_upTo? found hc)

theorem free_of_fieldsOf? {parts : List (List Char)} {fields : List (List Char × List Char)}
    (h : fieldsOf? parts = some fields) (free : ∀ part ∈ parts, c ∉ part) :
    ∀ field ∈ fields, c ∉ field.2 := by
  fun_induction fieldsOf? parts generalizing fields with
  | case1 => cases h
  | case2 =>
    cases h
    nofun
  | case3 part parts _ ih =>
    obtain ⟨first, rest⟩ := List.forall_mem_cons.mp free
    obtain ⟨field, hf, h⟩ := Option.bind_eq_some_iff.mp h
    obtain ⟨fields', hfs, h⟩ := Option.bind_eq_some_iff.mp h
    cases h
    exact List.forall_mem_cons.mpr ⟨free_of_field? hf first, ih hfs rest⟩

/-- No separator is part of a value. -/
theorem free_of_lookup {fields : List (List Char × List Char)} {key : List Char}
    (h : fields? text = some fields) (found : fields.lookup key = some value) :
    '\x01' ∉ value := by
  obtain ⟨before, behind, rfl, -⟩ := List.lookup_eq_some_iff.mp found
  have free := free_of_fieldsOf? h fun _ => not_mem_of_mem_splitOn
  exact free (key, value) (by simp)

theorem free_of_token? {fields : List (List Char × List Char)} {token : List Char}
    (h : fields? text = some fields) (found : token? fields = some token) : '\x01' ∉ token := by
  obtain ⟨value, hv, ht⟩ := Option.bind_eq_some_iff.mp found
  obtain ⟨scheme, rfl, -⟩ := List.dropPrefix?_eq_some_iff.mp ht
  exact fun hc => free_of_lookup h hv (List.mem_append_right scheme hc)

theorem not_mem_of_isKey {key : List Char} (h : isKey key = true) (hc : c.isAlpha = false) :
    c ∉ key := by
  intro hm
  have letter := List.all_eq_true.mp (Bool.and_eq_true_iff.mp h).2 c hm
  rw [hc] at letter
  cases letter

theorem field?_append {key : List Char} (h : isKey key = true) (value : List Char) :
    field? (key ++ '=' :: value) = some (key, value) := by
  rw [field?, upTo?_append (not_mem_of_isKey h (by decide)), Option.filter_some, if_pos h]

theorem fields?_append {key : List Char} (h : isKey key = true) (free : '\x01' ∉ value)
    (text : List Char) :
    fields? (key ++ '=' :: value ++ '\x01' :: text) =
      (fields? text).map ((key, value) :: ·) := by
  have whole : '\x01' ∉ key ++ '=' :: value := by
    simp only [List.mem_append, List.mem_cons, not_or]
    exact ⟨not_mem_of_isKey h (by decide), by decide, free⟩
  obtain ⟨first, parts, hp⟩ := List.exists_cons_of_ne_nil (List.splitOn_ne_nil '\x01' text)
  rw [fields?, List.splitOn_append_cons_self_of_not_mem whole, fields?, hp, fieldsOf?,
    field?_append h]
  · cases fieldsOf? (first :: parts) <;> rfl
  · simp

theorem toList_bearer (token : String) :
    (Payload.bearer token).toList =
      '\x01' :: ("auth".toList ++ '=' :: ("Bearer ".toList ++ token.toList) ++
        '\x01' :: ['\x01']) := by
  simp [Payload.bearer]

theorem fields?_bearer (h : '\x01' ∉ value) :
    fields? ("auth".toList ++ '=' :: ("Bearer ".toList ++ value) ++ '\x01' :: ['\x01']) =
      some [("auth".toList, "Bearer ".toList ++ value)] := by
  have free : '\x01' ∉ "Bearer ".toList ++ value := by
    rw [List.mem_append, not_or]
    exact ⟨by decide, h⟩
  have key : isKey "auth".toList = true := by decide
  have last : fields? ['\x01'] = some [] := by decide
  rw [fields?_append key free, last]
  rfl

theorem token?_of_lookup {fields : List (List Char × List Char)}
    (h : fields.lookup "auth".toList = some ("Bearer ".toList ++ value)) :
    token? fields = some value := by
  rw [token?, h]
  exact List.dropPrefix?_append_of_beq value (by decide)

/-! ### A name and a token -/

theorem toList_xoauth2 (user secret : String) :
    ("user=" ++ user ++ Payload.bearer secret).toList =
      "user".toList ++ '=' :: user.toList ++ (Payload.bearer secret).toList := by
  simp

theorem xoauth2?_xoauth2 (hu : '\x01' ∉ user.toList) (hs : '\x01' ∉ secret.toList) :
    xoauth2? (Payload.xoauth2 user secret) = some (user, secret) := by
  have key : isKey "user".toList = true := by decide
  have token : token? [("user".toList, user.toList), ("auth".toList, "Bearer ".toList ++
      secret.toList)] = some secret.toList := token?_of_lookup rfl
  rw [xoauth2?, Payload.xoauth2, text?_encode, Option.bind_some, toList_xoauth2, toList_bearer,
    fields?_append key hu, fields?_bearer hs]
  refine (congrArg (Option.bind · _) token).trans ?_
  simp

theorem free_of_xoauth2? {message : String} (h : xoauth2? message = some (user, secret)) :
    '\x01' ∉ user.toList ∧ '\x01' ∉ secret.toList := by
  unfold xoauth2? at h
  obtain ⟨fields, hf, h⟩ := Option.bind_eq_some_iff.mp h
  obtain ⟨user', hu, h⟩ := Option.bind_eq_some_iff.mp h
  obtain ⟨token, ht, h⟩ := Option.bind_eq_some_iff.mp h
  obtain ⟨text, -, hf⟩ := Option.bind_eq_some_iff.mp hf
  cases h
  simpa using ⟨free_of_lookup hf hu, free_of_token? hf ht⟩

theorem name?_eq_self (h : '=' ∉ cs) : name? cs = some cs := by
  fun_induction name? cs with
  | case1 => rfl
  | case2 | case3 => simp at h
  | case4 => simp at h
  | case5 c cs _ _ hc ih =>
    rw [ih fun hm => h (List.mem_cons_of_mem _ hm)]
    rfl

theorem toList_oauthBearer (user secret : String) :
    ("n,a=" ++ user ++ "," ++ Payload.bearer secret).toList =
      ['n'] ++ ',' :: (('a' :: '=' :: user.toList) ++ ',' :: (Payload.bearer secret).toList) := by
  simp

theorem oauthBearer?_oauthBearer (comma : ',' ∉ user.toList) (equals : '=' ∉ user.toList)
    (hs : '\x01' ∉ secret.toList) :
    oauthBearer? (Payload.oauthBearer user secret) = some (user, secret) := by
  have free : ',' ∉ 'a' :: '=' :: user.toList := by
    simpa using comma
  have token : (fields? ("auth".toList ++ '=' :: ("Bearer ".toList ++ secret.toList) ++
      '\x01' :: ['\x01'])).bind token? = some secret.toList := by
    rw [fields?_bearer hs]
    have found : [("auth".toList, "Bearer ".toList ++ secret.toList)].lookup "auth".toList =
      some ("Bearer ".toList ++ secret.toList) := rfl
    exact token?_of_lookup found
  rw [oauthBearer?, Payload.oauthBearer, text?_encode, Option.bind_some, toList_oauthBearer,
    toList_bearer, upTo?_append (show ',' ∉ ['n'] by decide)]
  show (upTo? ',' ('a' :: '=' :: user.toList ++ ',' :: _)).bind _ = _
  rw [upTo?_append free]
  show ((name? user.toList).bind fun user => _) = _
  rw [name?_eq_self equals]
  refine (congrArg (Option.bind · _) token).trans ?_
  simp

theorem free_of_oauthBearer? {message : String} (h : oauthBearer? message = some (user, secret)) :
    '\x01' ∉ secret.toList := by
  unfold oauthBearer? at h
  obtain ⟨⟨binding, text⟩, -, h⟩ := Option.bind_eq_some_iff.mp h
  obtain ⟨⟨authorization, text'⟩, -, h⟩ := Option.bind_eq_some_iff.mp h
  dsimp only at h
  split at h
  next name text'' =>
    split at h
    · obtain ⟨name', -, h⟩ := Option.bind_eq_some_iff.mp h
      obtain ⟨token, ht, h⟩ := Option.bind_eq_some_iff.mp h
      obtain ⟨fields, hf, ht⟩ := Option.bind_eq_some_iff.mp ht
      cases h
      simpa using free_of_token? hf ht
    · cases h
  next => cases h

/-! ### What comes back -/

/-- User and secret come back just as they were if neither holds a separator that ends it. -/
theorem returned_iff (user secret : String) :
    (plain? (Payload.plain user secret) = some (user, secret) ↔
      '\x00' ∉ user.toList ∧ '\x00' ∉ secret.toList) ∧
    (xoauth2? (Payload.xoauth2 user secret) = some (user, secret) ↔
      '\x01' ∉ user.toList ∧ '\x01' ∉ secret.toList) ∧
    (',' ∉ user.toList → '=' ∉ user.toList →
      (oauthBearer? (Payload.oauthBearer user secret) = some (user, secret) ↔
        '\x01' ∉ secret.toList)) := by
  refine ⟨?plain, ?xoauth2, ?oauthBearer⟩
  case plain =>
    constructor
    · exact free_of_plain?
    · rintro ⟨hu, hs⟩
      exact plain?_plain hu hs
  case xoauth2 =>
    constructor
    · exact free_of_xoauth2?
    · rintro ⟨hu, hs⟩
      exact xoauth2?_xoauth2 hu hs
  case oauthBearer =>
    intro comma equals
    constructor
    · exact free_of_oauthBearer?
    · exact oauthBearer?_oauthBearer comma equals

theorem returned_bearer :
    ',' ∉ "é\x01@b".toList ∧ '=' ∉ "é\x01@b".toList ∧
      oauthBearer? (Payload.oauthBearer "é\x01@b" "t=,") = some ("é\x01@b", "t=,") := by
  have comma : ',' ∉ "é\x01@b".toList := by decide
  have equals : '=' ∉ "é\x01@b".toList := by decide
  exact ⟨comma, equals, ((returned_iff _ _).2.2 comma equals).mpr (by decide)⟩

/-- A separator in a name or a secret ends it: the message is refused, or another user or another
secret is read. -/
theorem misread_at_separator :
    plain? (Payload.plain "a\x00b" "c") = none ∧
    xoauth2? (Payload.xoauth2 "a\x01auth=Bearer b" "c") = some ("a", "b") ∧
    oauthBearer? (Payload.oauthBearer "a" "b\x01c=d") = some ("a", "b") := by
  refine ⟨?plain, ?xoauth2, ?oauthBearer⟩
  case plain =>
    rw [plain?, Payload.plain, text?_encode]
    decide
  case xoauth2 =>
    rw [xoauth2?, Payload.xoauth2, text?_encode]
    decide
  case oauthBearer =>
    rw [oauthBearer?, Payload.oauthBearer, text?_encode]
    decide

end MailClient.Sasl.Server
