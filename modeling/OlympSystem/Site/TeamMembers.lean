/-
  OlympSystem.Site.TeamMembers — the members of a team as they were given
  (`DomainObjects.cs`, `Teams/Create.cshtml.cs`).

  `MemberInfos` has a name and an id for each of three slots, all six joined by semicolons;
  the id of a name that was typed in is empty. `GetMembers` splits the text and looks the
  ids up among the members. The page looks the ids up among the users of the organization,
  and shows the names before they are registered.

  Proved:
  - `memberInfo_ok` / `fields_split`: the text of a team that was registered splits into
    what was joined.
  - `getMembers_registered`: each slot reads back as what was given for it.
  - `validate_shows`: what the page shows, when it shows names.
  - `team_members`: all of it for a registration that returns.
-/

import OlympSystem.Site.CompetitorRuns

namespace OlympSystem.Site.Accounts.CompetitorManagement

open Lib.Text Lib.Query Lib.Transactions

/-! ## Reading -/

def loadMembers (db : Db) (competitor : Competitor) :
    List OlympUser := db.olympUsers.filter (db.isMember ·.id competitor)

def memberOf (members : List OlympUser) (text : String) : Except OperationExn (Option OlympUser) :=
  match tryParseInt text with
  | none => .ok none
  | some id =>
    match single (·.id == id) members with
    | .ok member => .ok (some member)
    | .error e => .error (.other e)

def getMembers (competitor : Competitor) (members : List OlympUser) :
    Except OperationExn (Option (List (String × Option OlympUser))) :=
  match competitor.memberInfos.map (split ';') with
  | some [name1, id1, name2, id2, name3, id3] => do
    let user1 ← memberOf members id1
    let user2 ← memberOf members id2
    let user3 ← memberOf members id3
    return some [(name1, user1), (name2, user2), (name3, user3)]
  | _ => .ok none

/-! ## The page -/

structure ModelError where
  key : String
  message : String
  deriving DecidableEq, Repr

structure InputModel where
  teamPrefix : Option String
  teamNumber : Option Int
  teamSuffix : Option String
  participant1 : String
  participant2 : String
  participant3 : String
  confirmation : Bool

structure CreateModel where
  member1 : Option OlympUser
  member2 : Option OlympUser
  member3 : Option OlympUser
  teamName : Option String
  teamMembers : Option String
  needConfirmation : Bool
  modelState : List ModelError

/-- The user whose id was typed in, and what is wrong with it. -/
def findMember (participants : List OlympUser) (key text : String) : Option OlympUser × List ModelError :=
  match tryParseInt text with
  | none => (none, [])
  | some id =>
    match participants.find? (·.id == id) with
    | none => (none, [⟨key, "Invalid value"⟩])
    | some member => (some member, [])

def fullName (user : OlympUser) : String := user.lastName.getD "" ++ " " ++ user.firstName.getD ""

def getName (user : Option OlympUser) (name : String) : String :=
  match user with
  | none => name
  | some user => fullName user

def teamName (input : InputModel) : Option String :=
  let name := input.teamPrefix
  let name := match input.teamNumber with
    | some x => some (name.getD "" ++ " " ++ toString x)
    | none => name
  match input.teamSuffix with
  | some suffix => some (name.getD "" ++ ": " ++ suffix)
  | none => name

def mustDiffer : ModelError := ⟨"", "Participants must be different."⟩

/-- `modelState` is what is wrong with the fields by themselves. -/
def validationErrors (input : InputModel) (found : List (Option OlympUser × List ModelError))
    (modelState : List ModelError) : List ModelError :=
  let memberIds := (found.filterMap Prod.fst).map fun x => x.id
  modelState ++ found.flatMap Prod.snd ++
    (if memberIds.eraseDups.length != memberIds.length then [mustDiffer] else []) ++
    if input.participant1 == input.participant2 || input.participant1 == input.participant3 ||
      input.participant2 == input.participant3 then [mustDiffer] else []

def validate (participants : List OlympUser) (input : InputModel) (modelState : List ModelError) : CreateModel :=
  let found1 := findMember participants "Input.Participant1" input.participant1
  let found2 := findMember participants "Input.Participant2" input.participant2
  let found3 := findMember participants "Input.Participant3" input.participant3
  let modelState := validationErrors input [found1, found2, found3] modelState
  let page : CreateModel := {
    member1 := found1.1
    member2 := found2.1
    member3 := found3.1
    teamName := none
    teamMembers := none
    needConfirmation := false
    modelState }
  if modelState.isEmpty then { page with
    teamName := teamName input
    teamMembers := some (getName page.member1 input.participant1 ++ ", " ++ getName page.member2 input.participant2 ++
      ", " ++ getName page.member3 input.participant3)
    needConfirmation := !input.confirmation
    modelState := if input.confirmation then [] else [⟨"", "Please confirm the correctness of the data."⟩] }
  else page

def InputModel.participants (input : InputModel) : List String :=
  [input.participant1, input.participant2, input.participant3]

/-- `organization.Users`, of those who can be seen. -/
def listed (organizationId : Int) (db : Db) : List OlympUser :=
  db.olympUsers.filter fun x => x.organizationId == some organizationId && !x.isHidden

/-- The names the page has for the slots. -/
def CreateModel.names (page : CreateModel) (input : InputModel) : List String :=
  [getName page.member1 input.participant1, getName page.member2 input.participant2,
    getName page.member3 input.participant3]

/-! ## What is stored -/

/-- `NameRegex`: no name has a semicolon. -/
def PlainNames (db : Db) : Prop :=
  ∀ user ∈ db.olympUsers, ';' ∉ (user.lastName.getD "").toList ∧ ';' ∉ (user.firstName.getD "").toList

instance (db : Db) : Decidable (PlainNames db) :=
  inferInstanceAs (Decidable (∀ user ∈ db.olympUsers, _ ∧ _))

theorem fullName_plain {db : Db} (h : PlainNames db) {user : OlympUser} (huser : user ∈ db.olympUsers) :
    ';' ∉ (fullName user).toList := by
  obtain ⟨hlast, hfirst⟩ := h user huser
  unfold fullName
  simp [hlast, hfirst]

/-- A name and the text of an id, as they are stored for a participant. -/
def StoredAs (members : List OlympUser) (text : String) (field : String × String) : Prop :=
  match tryParseInt text with
  | none => field = (text, "")
  | some id => ∃ user ∈ members, user.id = id ∧ field = (fullName user, toString id)

/-- What the slot of a participant reads back as. -/
def ReadAs (members : List OlympUser) (text : String) (slot : String × Option OlympUser) : Prop :=
  match tryParseInt text with
  | none => slot = (text, none)
  | some id => ∃ user ∈ members, user.id = id ∧ slot = (fullName user, some user)

theorem memberInfo_ok {members : List OlympUser} {text info : String} (h : memberInfo members text = .ok info) :
    ∃ field, StoredAs members text field ∧ info = field.1 ++ ";" ++ field.2 := by
  unfold memberInfo at h
  unfold StoredAs
  cases hparse : tryParseInt text with
  | none =>
    rw [hparse] at h
    cases h
    exact ⟨(text, ""), rfl, by simp⟩
  | some id =>
    rw [hparse] at h
    simp only at h
    split at h
    · cases h
    · next member hfind =>
      cases h
      exact ⟨_, ⟨member, List.mem_of_find?_eq_some hfind, beq_iff_eq.mp (List.find?_some hfind :), rfl⟩, rfl⟩

theorem storedAs_plain {members : List OlympUser} {text : String} {field : String × String}
    (h : StoredAs members text field) (htext : ';' ∉ text.toList)
    (hmembers : ∀ user ∈ members, ';' ∉ (fullName user).toList) : ';' ∉ field.1.toList ∧ ';' ∉ field.2.toList := by
  unfold StoredAs at h
  split at h
  · cases h
    exact ⟨htext, by simp⟩
  · next id _ =>
    obtain ⟨user, huser, -, rfl⟩ := h
    exact ⟨hmembers user huser, decimal_noSeparator (by decide) (by decide) id⟩

/-- What was joined comes back from the split. -/
theorem fields_split {members : List OlympUser} {participants memberInfos : List String}
    (hinfos : participants.mapM (memberInfo members) = .ok memberInfos) (hne : participants ≠ [])
    (htexts : ∀ text ∈ participants, ';' ∉ text.toList) (hmembers : ∀ user ∈ members, ';' ∉ (fullName user).toList) :
    ∃ fields, List.Forall₂ (StoredAs members) participants fields ∧
      split ';' (String.intercalate ";" memberInfos) = fields.flatMap fun f => [f.1, f.2] := by
  have hfields : ∃ fields : List (String × String), List.Forall₂ (StoredAs members) participants fields ∧
      memberInfos = fields.map (fun f => f.1 ++ ";" ++ f.2) ∧ ∀ f ∈ fields, ';' ∉ f.1.toList ∧ ';' ∉ f.2.toList := by
    have hall := mapM_eq_ok hinfos
    clear hinfos hne
    induction hall with
    | nil => exact ⟨[], .nil, rfl, fun _ h => (nomatch h)⟩
    | cons hinfo _ ih =>
      obtain ⟨fields, hstored, rfl, hplain⟩ := ih fun text htext => htexts text (List.mem_cons_of_mem _ htext)
      obtain ⟨field, hfield, rfl⟩ := memberInfo_ok hinfo
      refine ⟨field :: fields, .cons hfield hstored, rfl, fun f hf => ?_⟩
      rcases List.mem_cons.mp hf with rfl | hf
      · exact storedAs_plain hfield (htexts _ List.mem_cons_self) hmembers
      · exact hplain f hf
  obtain ⟨fields, hstored, rfl, hplain⟩ := hfields
  refine ⟨fields, hstored, ?_⟩
  have hjoin : String.intercalate ";" (fields.map fun f => f.1 ++ ";" ++ f.2) =
      String.intercalate ";" (fields.flatMap fun f => [f.1, f.2]) := join_pairs ';' fields
  rw [hjoin]
  refine split_join (fun hnil => ?_) fun field hfield => ?_
  · cases hstored with
    | nil => exact hne rfl
    | cons => cases hnil
  · obtain ⟨f, hf, hmem⟩ := List.mem_flatMap.mp hfield
    rcases List.mem_cons.mp hmem with rfl | hmem
    · exact (hplain f hf).1
    · rw [List.mem_singleton.mp hmem]
      exact (hplain f hf).2

/-! ## What is read -/

/-- Of members with different ids, each is the single one with its id. -/
theorem single_member {members : List OlympUser} (hids : (members.map fun x => x.id).Nodup) {user : OlympUser}
    (huser : user ∈ members) : single (·.id == user.id) members = .ok user := by
  unfold single
  rw [filter_key_unique hids huser]

theorem memberOf_stored {members loaded : List OlympUser} {text : String} {field : String × String}
    (h : StoredAs members text field) (hsame : ∀ user ∈ members, user ∈ loaded)
    (hids : (loaded.map fun x => x.id).Nodup) :
    ∃ slot, memberOf loaded field.2 = .ok slot ∧ ReadAs loaded text (field.1, slot) := by
  unfold StoredAs at h
  unfold ReadAs
  split at h
  · cases h
    exact ⟨none, rfl, rfl⟩
  · next id hparse =>
    obtain ⟨user, huser, rfl, rfl⟩ := h
    obtain ⟨hlow, hhigh⟩ := tryParseInt_range hparse
    refine ⟨some user, ?_, user, hsame user huser, rfl, rfl⟩
    unfold memberOf
    rw [tryParseInt_toString hlow hhigh]
    simp only
    rw [single_member hids (hsame user huser)]

/-- Each of the three slots reads back as what was given for it. -/
theorem getMembers_stored {team : Competitor} {members loaded : List OlympUser} {participants infos : List String}
    {fields : List (String × String)} (hteam : team.memberInfos = some (String.intercalate ";" infos))
    (hsplit : split ';' (String.intercalate ";" infos) = fields.flatMap fun f => [f.1, f.2])
    (hstored : List.Forall₂ (StoredAs members) participants fields) (hlength : participants.length = 3)
    (hsame : ∀ user ∈ members, user ∈ loaded) (hids : (loaded.map fun x => x.id).Nodup) :
    ∃ slots, getMembers team loaded = .ok (some slots) ∧ List.Forall₂ (ReadAs loaded) participants slots := by
  obtain ⟨text1, text2, text3, rfl⟩ := List.length_eq_three.mp hlength
  obtain _ | ⟨h1, _ | ⟨h2, _ | ⟨h3, _ | _⟩⟩⟩ := hstored
  obtain ⟨slot1, hslot1, hread1⟩ := memberOf_stored h1 hsame hids
  obtain ⟨slot2, hslot2, hread2⟩ := memberOf_stored h2 hsame hids
  obtain ⟨slot3, hslot3, hread3⟩ := memberOf_stored h3 hsame hids
  refine ⟨_, ?_, .cons hread1 (.cons hread2 (.cons hread3 .nil))⟩
  unfold getMembers
  rw [hteam, Option.map_some, hsplit]
  simp only [List.flatMap_cons, List.flatMap_nil, List.cons_append, List.nil_append, hslot1, hslot2, hslot3]
  rfl

/-! ## What the page shows -/

theorem findMember_readAs {users : List OlympUser} {key text : String} (h : (findMember users key text).2 = []) :
    ReadAs users text (getName (findMember users key text).1 text, (findMember users key text).1) := by
  unfold findMember at h ⊢
  unfold ReadAs
  cases hparse : tryParseInt text with
  | none => rfl
  | some id =>
    rw [hparse] at h
    simp only at h ⊢
    cases hfind : users.find? (·.id == id) with
    | none => rw [hfind] at h; cases h
    | some user => exact ⟨user, List.mem_of_find?_eq_some hfind, beq_iff_eq.mp (List.find?_some hfind :), rfl⟩

theorem validate_names (users : List OlympUser) (input : InputModel) (modelState : List ModelError) :
    (validate users input modelState).names input =
      [getName (findMember users "Input.Participant1" input.participant1).1 input.participant1,
        getName (findMember users "Input.Participant2" input.participant2).1 input.participant2,
        getName (findMember users "Input.Participant3" input.participant3).1 input.participant3] := by
  simp only [validate]
  split <;> rfl

/-- When the page shows names, every slot is what was typed in for it. -/
theorem validate_shows {users : List OlympUser} {input : InputModel} {modelState : List ModelError} {text : String}
    (h : (validate users input modelState).teamMembers = some text) :
    text = String.intercalate ", " ((validate users input modelState).names input) ∧
      ∃ slots : List (String × Option OlympUser), List.Forall₂ (ReadAs users) input.participants slots ∧
        (validate users input modelState).names input = slots.map Prod.fst := by
  rw [validate_names]
  simp only [validate] at h
  split at h
  · next hvalid =>
    rw [List.isEmpty_iff, validationErrors] at hvalid
    simp only [List.append_eq_nil_iff, List.flatMap_eq_nil_iff, List.mem_cons] at hvalid
    obtain ⟨⟨⟨-, hfound⟩, -⟩, -⟩ := hvalid
    have h1 := findMember_readAs (hfound _ (Or.inl rfl))
    have h2 := findMember_readAs (hfound _ (Or.inr (Or.inl rfl)))
    have h3 := findMember_readAs (hfound _ (Or.inr (Or.inr (Or.inl rfl))))
    refine ⟨?_, _, .cons h1 (.cons h2 (.cons h3 .nil)), rfl⟩
    rw [← Option.some.inj h]
    refine String.toList_injective ?_
    simp
  · cases h

/-- What is read of a participant has the name of the user with its id. -/
theorem readAs_name {users loaded : List OlympUser} {text : String} {shown slot : String × Option OlympUser}
    (hsame : ∀ x ∈ users, ∀ y ∈ loaded, x.id = y.id → fullName x = fullName y) (hshown : ReadAs users text shown)
    (hslot : ReadAs loaded text slot) : shown.1 = slot.1 := by
  unfold ReadAs at hshown hslot
  cases hparse : tryParseInt text with
  | none =>
    rw [hparse] at hshown hslot
    rw [hshown, hslot]
  | some id =>
    rw [hparse] at hshown hslot
    obtain ⟨x, hx, hxid, rfl⟩ := hshown
    obtain ⟨y, hy, hyid, rfl⟩ := hslot
    exact hsame x hx y hy (hxid.trans hyid.symm)

theorem readAs_names {users loaded : List OlympUser}
    (hsame : ∀ x ∈ users, ∀ y ∈ loaded, x.id = y.id → fullName x = fullName y) :
    ∀ {participants : List String} {shown slots : List (String × Option OlympUser)},
      List.Forall₂ (ReadAs users) participants shown → List.Forall₂ (ReadAs loaded) participants slots →
        shown.map Prod.fst = slots.map Prod.fst := by
  intro participants shown slots hshown hslots
  induction hshown generalizing slots with
  | nil => cases hslots; rfl
  | cons hname _ ih =>
    cases hslots with
    | cons hslot hslots => rw [List.map_cons, List.map_cons, readAs_name hsame hname hslot, ih hslots]

/-! ## Registered teams -/

/-- What is read back of a team that was registered. -/
structure ReadBack (participants : List String) (db : Db) (team : Competitor)
    (slots : List (String × Option OlympUser)) :
    Prop where
  three : slots.length = 3
  read : getMembers team (loadMembers db team) = .ok (some slots)
  slots : List.Forall₂ (ReadAs (loadMembers db team)) participants slots
  members : ∀ id, db.isMember id team = true ↔ some id ∈ participants.map tryParseInt

/-- Nobody was renamed in between. -/
def SameNames (db db' : Db) : Prop := ∀ x ∈ db.olympUsers, ∀ y ∈ db'.olympUsers, x.id = y.id → fullName x = fullName y

section Registered

variable {service : CompetitorManagementService} {o : Outside OperationExn} {db db' : Db}
  {contestId organizationId coachId : Int} {name : String} {participants : List String} {u : Unit}

theorem getMembers_registered (hnames : PlainNames db)
    (h : Returns o (registerTeamAsync service contestId organizationId coachId name participants) db u db') :
    ∃ team slots, db'.competitors = db.competitors ++ [team] ∧ (team.contestId = contestId ∧ team.name = name) ∧
      db'.olympUsers = db.olympUsers ∧ ReadBack participants db' team slots := by
  obtain ⟨members, infos, date, ⟨hlength, htexts⟩, hmembers, -, hinfos, hcreate⟩ := registerTeamAsync_returns service h
  have hcreates := createAsync_returns hcreate
  have hstored : ∀ user ∈ members, user ∈ db.olympUsers := by
    rw [hmembers]
    exact fun user huser => (List.mem_filter.mp huser).1
  obtain ⟨fields, hfields, hsplit⟩ := fields_split hinfos (fun hnil => by rw [hnil] at hlength; cases hlength) htexts
    fun user huser => fullName_plain hnames (hstored user huser)
  generalize hteam : db.created (newTeam contestId organizationId coachId name (String.intercalate ";" infos) date) =
    team
    at hcreates
  have hinfos : team.memberInfos = some (String.intercalate ";" infos) := by
    rw [← hteam]
    rfl
  have hloaded : ∀ user ∈ members, user ∈ loadMembers db' team := fun user huser =>
    List.mem_filter.mpr ⟨hcreates.olympUsers ▸ hstored user huser,
      hcreates.isMember_new.mpr (List.mem_map_of_mem huser)⟩
  obtain ⟨slots, hread, hslots⟩ := getMembers_stored hinfos hsplit hfields hlength hloaded
    ((Db.olympUser_ids db').sublist (List.filter_sublist.map _))
  refine ⟨team, slots, hcreates.competitors, hteam ▸ ⟨rfl, rfl⟩, hcreates.olympUsers, ⟨?_, hread, hslots, fun id => ?_⟩⟩
  · rw [← hslots.length_eq, hlength]
  rw [hcreates.isMember_new]
  constructor
  · -- who was loaded had been asked for
    intro hid
    obtain ⟨user, huser, rfl⟩ := List.mem_map.mp hid
    rw [hmembers] at huser
    have hasked := (List.mem_filter.mp huser).2
    simp only [Bool.and_eq_true, List.contains_iff_mem, List.mem_filterMap] at hasked
    exact List.mem_map.mpr hasked.1.1
  · -- and who was asked for is in a slot
    intro hid
    obtain ⟨text, htext, hparse⟩ := List.mem_map.mp hid
    obtain ⟨field, -, hfield⟩ := (forall₂_exists hfields).1 text htext
    unfold StoredAs at hfield
    rw [hparse] at hfield
    obtain ⟨user, huser, rfl, -⟩ := hfield
    exact List.mem_map_of_mem huser

theorem team_members (service : CompetitorManagementService) (hnames : PlainNames db)
    (h : Returns o (registerTeamAsync service contestId organizationId coachId name participants) db u db') :
    ∃ team slots, db'.competitors = db.competitors ++ [team] ∧ (team.contestId = contestId ∧ team.name = name) ∧
      ReadBack participants db' team slots ∧
      ∀ before users input modelState text, SameNames before db → users.Perm (listed organizationId before) →
        input.participants = participants → (validate users input modelState).teamMembers = some text →
          (validate users input modelState).names input = slots.map Prod.fst ∧
            text = String.intercalate ", " (slots.map Prod.fst) := by
  obtain ⟨team, slots, hcompetitors, hteam, husers, hread⟩ := getMembers_registered hnames h
  refine ⟨team, slots, hcompetitors, hteam, hread,
    fun before users input modelState text hsame hperm hinput hshown => ?_⟩
  obtain ⟨htext, shown, hreads, hpage⟩ := validate_shows hshown
  rw [hinput] at hreads
  have hequal : shown.map Prod.fst = slots.map Prod.fst := by
    refine readAs_names (fun x hx y hy => ?_) hreads hread.slots
    have hx := (List.mem_filter.mp (hperm.mem_iff.mp hx)).1
    have hy := (List.mem_filter.mp hy).1
    exact hsame x hx y (husers ▸ hy)
  rw [htext, hpage, hequal]
  exact ⟨rfl, rfl⟩

end Registered

theorem SameNames.refl (db : Db) : SameNames db db := fun _ hx _ hy h => congrArg fullName (Db.olympUser_unique hx hy h)

def sampleMember : OlympUser := { sampleUser with firstName := some "Ivan", lastName := some "Ivanov" }

/-- The contest for teams can be seen, and the user has a name. -/
def sampleTeamDb : Db :=
  { sampleDb with
    contests := ⟨[⟨2, "acm", 0, 100, true, false⟩], 3, by decide, by decide⟩
    users := ⟨[.olympUser sampleMember, .competitor sampleCompetitor], 3, by decide, by decide⟩
    stamps := by decide
    members_of := by
      intro p hp
      rw [List.mem_singleton.mp hp]
      exact ⟨⟨sampleMember, List.mem_cons_self, rfl⟩, sampleCompetitor, List.mem_cons_of_mem _ List.mem_cons_self, rfl⟩
    claims_of := by decide
    history_of := fun _ h => (nomatch h) }

def sampleInput : InputModel := ⟨some "Team", none, none, "+01", "Free Text", "7-7", false⟩

theorem sample_team : ∃ team slots,
    ReadBack sampleInput.participants
      (registerTeamAsync sampleService 2 1 1 "Team" sampleInput.participants (calm 0) ⟨sampleTeamDb, 0⟩).2.db
      team slots ∧
      slots.map Prod.fst = ["Ivanov Ivan", "Free Text", "7-7"] := by
  have hrun : (registerTeamAsync sampleService 2 1 1 "Team" sampleInput.participants (calm 0) ⟨sampleTeamDb, 0⟩).1 =
      .ok () := by decide +kernel
  obtain ⟨team, slots, -, -, hread, hpage⟩ := team_members sampleService (by decide) (Returns.of_run hrun)
  obtain ⟨hnames, -⟩ := hpage sampleTeamDb (listed 1 sampleTeamDb) sampleInput [] "Ivanov Ivan, Free Text, 7-7"
    (SameNames.refl _) (List.Perm.refl _) rfl (by decide +kernel)
  exact ⟨team, slots, hread, hnames.symm.trans (by decide +kernel)⟩

end OlympSystem.Site.Accounts.CompetitorManagement
