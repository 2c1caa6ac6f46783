import MailClient.Proofs.Imap.Settling

/-! When an authentication sends a password with the LOGIN command. That should be a last resort,
for servers that name no mechanism at all; but a server that names only mechanisms which are not
known here is met with it too. -/
namespace MailClient.Imap

def loginCommand (user secret : String) : Command :=
  ⟨"LOGIN", [.ofText user, .ofText secret], true⟩

def Incident.login? (i : Incident) : Option Command :=
  match i.written? with
  | some (.command _ command) => if command.name = "LOGIN" then some command else none
  | _ => none

theorem Incident.login?_eq_some_iff {i : Incident} {command : Command} :
    i.login? = some command ↔
      ∃ tag, i.written? = some (.command tag command) ∧ command.name = "LOGIN" := by
  unfold login?
  split
  next tag written hw =>
    rw [hw]
    split
    next name =>
      constructor
      · rintro ⟨⟩
        exact ⟨tag, rfl, name⟩
      · rintro ⟨_, ⟨⟩, -⟩
        rfl
    next other =>
      constructor
      · rintro ⟨⟩
      · rintro ⟨_, ⟨⟩, name⟩
        exact absurd name other
  next other =>
    constructor
    · rintro ⟨⟩
    · rintro ⟨tag, hw, -⟩
      exact absurd hw (other tag command)

def logins (incidents : List Incident) : List Command := incidents.filterMap Incident.login?

namespace Connection

variable {free : Prop} {c c' c₁ : Connection} {τ : Type} {incidents : List Incident}
  {command : Command} {sent : Command → Prop}

/-- The first password among the candidates that a strategy has where a password will do. -/
def password? (host : String) (strategy : Sasl.Strategy) : Option (String × String) :=
  ((strategy host [.offer .plain, .offer .login]).filterMap fun candidate =>
    match candidate.credentials with
    | .password user secret => some (user, secret)
    | _ => none).head?

structure CanSend (c : Connection) : Prop where
  usable : c.usable = true
  pending : c.pending = none
  unused : c.nextTag.1 ∉ c.outstanding

/-- An authentication may come to this LOGIN command, once the capabilities have been asked for. -/
structure Resorts (host : String) (strategy : Sasl.Strategy) (c c₁ : Connection)
    (command : Command) : Prop where
  preauth : c.preauth = false
  learnt : ∃ names, learnCapabilities c = (.ok names, c₁)
  allowed : c₁.hasCapability "LOGINDISABLED" = false
  password : ∃ user secret, password? host strategy = some (user, secret) ∧
    command = loginCommand user secret

def LastResort (host : String) (strategy : Sasl.Strategy) (c : Connection)
    (incidents : List Incident) : Prop :=
  ∀ command ∈ logins incidents,
    ∃ c₁, Resorts host strategy c c₁ command ∧ c₁.authMechanisms = []

/-- The server names mechanisms, but none that is known. -/
def Overlooked (host : String) (strategy : Sasl.Strategy) (c : Connection) : Prop :=
  ∃ c₁ command, Resorts host strategy c c₁ command ∧ CanSend c₁ ∧ c₁.authMechanisms ≠ [] ∧
    ∀ name ∈ c₁.authMechanisms, Sasl.Scheme.ofName? name = none

def Spoken (free : Prop) (sent : Command → Prop) (c c' : Connection)
    (incidents : List Incident) : Prop :=
  Course free c incidents c' ∧ ∀ command, command ∈ logins incidents ↔ sent command

theorem Resorts.same {host : String} {strategy : Sasl.Strategy} {c₂ : Connection}
    {command' : Command} (h : Resorts host strategy c c₁ command)
    (h' : Resorts host strategy c c₂ command') : c₂ = c₁ := by
  obtain ⟨names, learnt⟩ := h.learnt
  obtain ⟨names', learnt'⟩ := h'.learnt
  rw [learnt] at learnt'
  cases learnt'
  rfl

theorem offers_eq_nil_iff {names : List String} : Sasl.Challenge.offers names = [] ↔
    ∀ name ∈ names, Sasl.Scheme.ofName? name = none := by
  rw [Sasl.Challenge.offers, List.map_eq_nil_iff, List.filterMap_eq_nil_iff]

/-- A course of commands that are all other than LOGIN. -/
theorem spoken_of_sends {allowed : Command → Prop} (h : Sends free allowed c c')
    (other : ∀ command, allowed command → command.name ≠ "LOGIN") :
    ∃ incidents, Spoken free (fun _ => False) c c' incidents := by
  obtain ⟨incidents, course, only⟩ := h
  refine ⟨incidents, course, fun command => iff_of_false ?_ not_false⟩
  intro hc
  obtain ⟨i, hi, login⟩ := List.mem_filterMap.mp hc
  obtain ⟨tag, hw, name⟩ := Incident.login?_eq_some_iff.mp login
  exact other command (only i hi tag command hw) name

theorem Spoken.congr {sent' : Command → Prop} (h : Spoken free sent c c' incidents)
    (same : ∀ command, sent command ↔ sent' command) : Spoken free sent' c c' incidents :=
  ⟨h.1, fun command => (h.2 command).trans (same command)⟩

/-- Commands other than LOGIN before those that count make no difference. -/
theorem Spoken.after {earlier : List Incident} (h : Spoken free sent c₁ c' incidents)
    (none : Spoken free (fun _ => False) c c₁ earlier) :
    Spoken free sent c c' (earlier ++ incidents) := by
  refine ⟨none.1.trans h.1, fun command => ?_⟩
  rw [← h.2 command, logins, List.filterMap_append, List.mem_append]
  exact or_iff_right (none.2 command).mp

/-- What cannot be sent is refused before anything of it goes out. -/
theorem send_refused (command : Command) (h : ¬CanSend c) :
    ∃ e, send c.nextTag.1 command c.nextTag.2 = (.error e, c.nextTag.2) := by
  cases usable : c.usable with
  | false =>
    have usable : c.nextTag.2.usable = false := usable
    exact ⟨.misuse .unusable, by simp [send, usable]⟩
  | true =>
    refine refused_send _ command (Classical.byContradiction fun open_ => h ?_)
    obtain ⟨unused, idle⟩ := not_or.mp open_
    have idle : c.pending = none := Option.not_isSome_iff_eq_none.mp idle
    exact ⟨usable, idle, unused⟩

/-- A command goes out exactly if the connection can send, and nothing else does. -/
theorem spoken_execute (c : Connection) (name : command.name = "LOGIN") :
    ∃ incidents, Spoken free (fun command' => CanSend c ∧ command' = command) c
      (execute command c).2 incidents := by
  have numbered : Spoken free (fun _ => False) c c.nextTag.2 [] :=
    ⟨.single (.tag c), by simp [logins]⟩
  by_cases ready : CanSend c
  · have quiet : Sends free (fun _ => False) (send c.nextTag.1 command c.nextTag.2).2
        (execute command c).2 := by
      unfold execute
      dsimp only
      split
      next hs =>
        rw [hs]
        exact .refl _
      next c₁ hs =>
        rw [hs]
        have heard : Sends free _ c₁ _ := (reads_clear.readUntil c.nextTag.1 c₁).quiet
        split
        next hr => exact heard.to hr
        next hr =>
          split
          · exact heard.to hr
          · exact heard.to hr
    have step := @Step.command free c.nextTag.2 c.nextTag.1 command ready.usable ready.unused
      ready.pending
    obtain ⟨later, course, none⟩ := spoken_of_sends quiet fun _ absurd => absurd.elim
    have first := Incident.login?_eq_some_iff.mpr ⟨_, written_writing (.command c.nextTag.1 command)
      (c.nextTag.2.encoding c.nextTag.1 command).first c.nextTag.2, name⟩
    refine ⟨_, Spoken.after ⟨.step step course, fun command' => ?_⟩ numbered⟩
    have wrote : logins [_] = [command] := List.filterMap_cons_some first
    rw [logins, List.filterMap_append, List.mem_append, ← logins, wrote, List.mem_singleton]
    constructor
    · intro hc
      exact ⟨ready, hc.resolve_right (none command').mp⟩
    · rintro ⟨-, same⟩
      exact .inl same
  · obtain ⟨e, refused⟩ := send_refused command ready
    have after : (execute command c).2 = c.nextTag.2 := by
      simp [execute, refused]
    rw [after]
    exact ⟨[], numbered.congr fun _ => iff_of_false not_false fun h => ready h.1⟩

theorem login_eq (user secret : String) (c : Connection) :
    (login user secret c).2 = (execute (loginCommand user secret) c).2 := by
  unfold login loginCommand
  split
  next he => rw [he]
  next he => rw [he]
  next he => rw [he]

theorem loginWith_none {host : String} {strategy : Sasl.Strategy}
    (h : password? host strategy = none) (c : Connection) : (loginWith host strategy c).2 = c := by
  unfold loginWith
  dsimp only
  split
  · rfl
  next found =>
    have found : password? host strategy = some _ := congrArg List.head? found
    rw [h] at found
    cases found

theorem loginWith_some {host user secret : String} {strategy : Sasl.Strategy}
    (h : password? host strategy = some (user, secret)) (c : Connection) :
    (loginWith host strategy c).2 = (execute (loginCommand user secret) c).2 := by
  unfold loginWith
  dsimp only
  split
  next nothing =>
    have nothing : password? host strategy = none := congrArg List.head? nothing
    rw [h] at nothing
    cases nothing
  next found =>
    have found : password? host strategy = some _ := congrArg List.head? found
    rw [h] at found
    cases found
    rw [← login_eq]
    split
    next he => rw [he]
    next he => rw [he]

theorem spoken_loginWith (host : String) (strategy : Sasl.Strategy) (c : Connection) :
    ∃ incidents, Spoken free (fun command => CanSend c ∧ ∃ user secret,
        password? host strategy = some (user, secret) ∧ command = loginCommand user secret) c
      (loginWith host strategy c).2 incidents := by
  rcases hp : password? host strategy with _ | ⟨user, secret⟩
  · rw [loginWith_none hp]
    refine ⟨[], .refl c, fun command => iff_of_false (by simp [logins]) ?_⟩
    rintro ⟨-, user, secret, ⟨⟩, -⟩
  · rw [loginWith_some hp]
    obtain ⟨incidents, spoken⟩ := @spoken_execute free (loginCommand user secret) c rfl
    refine ⟨incidents, spoken.congr fun command => and_congr_right fun _ => ?_⟩
    constructor
    · intro same
      exact ⟨user, secret, rfl, same⟩
    · rintro ⟨_, _, ⟨⟩, same⟩
      exact same

/-- LOGIN goes out exactly where no mechanism is known, and nothing else is against it. -/
theorem spoken_authenticate (host : String) (strategy : Sasl.Strategy)
    (service : Sasl.TokenService τ) (c : Connection) (t : τ) :
    ∃ incidents, Spoken free (fun command => ∃ c₁, Resorts host strategy c c₁ command ∧
        CanSend c₁ ∧ Sasl.Challenge.offers c₁.authMechanisms = []) c
      (authenticate host strategy service (c, t)).2.1 incidents := by
  have never {after : Connection}
      (h : Sends free (fun command => command.name ≠ "LOGIN") c after)
      {sent : Command → Prop} (no : ∀ command, ¬sent command) :
      ∃ incidents, Spoken free sent c after incidents := by
    obtain ⟨incidents, spoken⟩ := spoken_of_sends h fun _ other => other
    exact ⟨incidents, spoken.congr fun command => iff_of_false not_false (no command)⟩
  cases hp : c.preauth with
  | true =>
    rw [authenticate_preauth hp]
    refine never (.refl c) ?_
    rintro command ⟨c₁, resorts, -⟩
    exact Bool.false_ne_true (resorts.preauth.symm.trans hp)
  | false =>
    have asked : Sends free (fun command => command.name ≠ "LOGIN") c _ :=
      sends_learnCapabilities c (by decide)
    rcases hl : learnCapabilities c with ⟨e | names, c₁⟩
    · rw [authenticate_unlearnt hp hl]
      refine never (asked.to hl) ?_
      rintro command ⟨c₁, resorts, -⟩
      obtain ⟨names, learnt⟩ := resorts.learnt
      rw [hl] at learnt
      cases learnt
    · have learnt : Sends free _ c c₁ := asked.to hl
      have only {c₂ : Connection} {command : Command}
          (resorts : Resorts host strategy c c₂ command) : c₂ = c₁ := by
        obtain ⟨names, learnt⟩ := resorts.learnt
        rw [hl] at learnt
        cases learnt
        rfl
      by_cases ho : Sasl.Challenge.offers c₁.authMechanisms = []
      · cases hd : c₁.hasCapability "LOGINDISABLED" with
        | true =>
          rw [authenticate_disabled hp hl ho hd]
          refine never learnt ?_
          rintro command ⟨c₂, resorts, -⟩
          obtain rfl := only resorts
          exact Bool.false_ne_true (resorts.allowed.symm.trans hd)
        | false =>
          rw [authenticate_login hp hl ho hd]
          obtain ⟨before, asked⟩ := spoken_of_sends learnt fun _ other => other
          obtain ⟨later, spoken⟩ := @spoken_loginWith free host strategy c₁
          refine ⟨_, (spoken.after asked).congr fun command => ?_⟩
          constructor
          · rintro ⟨ready, password⟩
            exact ⟨c₁, ⟨hp, ⟨names, hl⟩, hd, password⟩, ready, ho⟩
          · rintro ⟨c₂, resorts, ready, -⟩
            obtain rfl := only resorts
            exact ⟨ready, resorts.password⟩
      · rw [authenticate_sasl hp hl ho]
        have talked := @sends_runSasl free τ host strategy service
          (Sasl.Challenge.offers c₁.authMechanisms) c₁ t
        refine never (learnt.trans (talked.mono fun command opens => ?_)) ?_
        · exact fun name => absurd (name.symm.trans opens) (by decide)
        rintro command ⟨c₂, resorts, -, nothing⟩
        obtain rfl := only resorts
        exact ho nothing

/-- LOGIN is a last resort, but for servers that name only mechanisms which are not known. -/
theorem lastResort_iff (host : String) (strategy : Sasl.Strategy)
    (service : Sasl.TokenService τ) (c : Connection) (t : τ) :
    ∃ incidents, Course False c incidents (authenticate host strategy service (c, t)).2.1 ∧
      (authenticate host strategy service (c, t)).2.1.emitted =
        c.emitted ++ incidents.flatMap Incident.octets ∧
      (∀ command, command ∈ logins incidents ↔ ∃ c₁, Resorts host strategy c c₁ command ∧
        CanSend c₁ ∧ ∀ name ∈ c₁.authMechanisms, Sasl.Scheme.ofName? name = none) ∧
      (LastResort host strategy c incidents ↔ ¬Overlooked host strategy c) := by
  obtain ⟨incidents, course, spoken⟩ := @spoken_authenticate False τ host strategy service c t
  simp only [offers_eq_nil_iff] at spoken
  refine ⟨incidents, course, emitted_course course, spoken, ?_⟩
  constructor
  · rintro resort ⟨c₁, command, resorts, ready, named, unknown⟩
    obtain ⟨c₂, resorts', unnamed⟩ := resort command
      ((spoken command).mpr ⟨c₁, resorts, ready, unknown⟩)
    rw [resorts.same resorts'] at unnamed
    exact named unnamed
  · intro heeded command login
    obtain ⟨c₁, resorts, ready, unknown⟩ := (spoken command).mp login
    refine ⟨c₁, resorts, Classical.byContradiction fun named => heeded ?_⟩
    exact ⟨c₁, command, resorts, ready, named, unknown⟩

/-- The one mechanism that the server names is not known here, and the password goes out. -/
theorem not_lastResort_unknown :
    let stream := Wire.Stream.start [.data (Bytes.ofText
      "* OK [CAPABILITY IMAP4rev1 AUTH=GSSAPI] ready\r\nA0000 OK done\r\n")] .unlimited
    let c := (start stream { host := "mail" }).2
    let strategy := Sasl.Strategy.inOrder [⟨.plain, .password "user" "pw"⟩]
    let after := (authenticate "mail" strategy (Sasl.TokenService.empty Unit) (c, ())).2.1
    after.emitted = Bytes.ofText "A0000 LOGIN user pw\r\n" ∧
      ∃ incidents, Course False c incidents after ∧ ¬LastResort "mail" strategy c incidents := by
  intro stream c strategy after
  -- All that is known of the connection comes from one evaluation of its greeting.
  have known : c.preauth = false ∧ c.capabilities.isEmpty = false ∧
      c.hasCapability "LOGINDISABLED" = false ∧ c.authMechanisms = ["GSSAPI"] ∧
      c.usable = true ∧ c.pending = none ∧ c.nextTag.1 ∉ c.outstanding := by decide +kernel
  obtain ⟨preauth, capable, allowed, mechanisms, usable, pending, unused⟩ := known
  have learnt : learnCapabilities c = (.ok c.capabilities, c) := by
    simp only [learnCapabilities, capable]
    rfl
  have resorts : Resorts "mail" strategy c c (loginCommand "user" "pw") :=
    ⟨preauth, ⟨_, learnt⟩, allowed, _, _, by decide +kernel, rfl⟩
  have overlooked : Overlooked "mail" strategy c := by
    refine ⟨c, _, resorts, ⟨usable, pending, unused⟩, ?_⟩
    rw [mechanisms]
    exact ⟨by simp, by decide +kernel⟩
  obtain ⟨incidents, course, -, -, resort⟩ :=
    lastResort_iff "mail" strategy (Sasl.TokenService.empty Unit) c ()
  exact ⟨by decide +kernel, incidents, course, fun last => resort.mp last overlooked⟩

end Connection
end MailClient.Imap
