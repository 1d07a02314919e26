import AasSign.Auth.LoginEffects
import AasSign.Auth.Oidc
import AasSign.Codec.Base64

/-! # The code exchange

A login opens one page and exchanges at most one code. Page, redirect and exchange belong
together: the same client and redirect address stand in the page and in the exchange, the code
comes with the state of the page, and the verifier is the one that the page's challenge is the
hash of.
-/

namespace AasSign

open Foundation Program

/-! ## What is not escaped -/

section Unreserved

variable {s d : Bytes}

theorem urlEncode_of_unreserved (h : ∀ c ∈ s, isUnreserved c) : urlEncode s = s := by
  induction s with
  | nil => rfl
  | cons c rest ih =>
      obtain ⟨hc, hrest⟩ := List.forall_mem_cons.mp h
      rw [urlEncode_cons, if_pos hc, ih hrest, List.singleton_append]

theorem unreserved_base64urlEncode : ∀ c ∈ base64urlEncode d, isUnreserved c := by
  have htable : ∀ c ∈ urlTable, isUnreserved c := by decide +kernel
  exact fun c hc => htable c (mem_urlTable_of_mem_encode hc)

theorem unreserved_hexEncode : ∀ c ∈ hexEncode d, isUnreserved c := by
  have htable : ∀ n < 16, isUnreserved ((ascii "0123456789abcdef").getD n 0) := by decide
  have hhigh : ∀ n < 256, (UInt8.ofNat n >>> 4).toNat < 16 := by decide +kernel
  intro c hc
  simp only [hexEncode, List.mem_flatMap, List.mem_cons, List.not_mem_nil, or_false] at hc
  obtain ⟨b, -, rfl | rfl⟩ := hc
  · have hb := hhigh b.toNat b.toNat_lt
    rw [UInt8.ofNat_toNat] at hb
    exact htable _ hb
  · exact htable _ (low_nibble_lt b)

end Unreserved

/-! ## The page and the form -/

/-- What a login draws and is sent. -/
structure Drawn where
  verifierBytes : Bytes
  stateBytes : Bytes
  port : Nat
  target : Bytes
  code : Bytes

def Drawn.verifier (d : Drawn) : Bytes := base64urlEncode d.verifierBytes

def Drawn.state (d : Drawn) : Bytes := hexEncode d.stateBytes

def Drawn.redirectUri (d : Drawn) : Bytes := ascii "http://localhost:" ++ ascii (toString d.port)

/-- The hash of the verifier that the page shows. -/
def Drawn.challenge (d : Drawn) (env : LoginEnv) : Bytes := base64urlEncode (env.sha256 d.verifier)

def Drawn.page (d : Drawn) (env : LoginEnv) (options : LoginOptions) : Bytes :=
  authorizeUrl options d.redirectUri d.state (d.challenge env)

def Drawn.session (d : Drawn) (options : LoginOptions) : LoginSession where
  tenant := options.tenant
  clientId := options.clientId
  code := d.code
  redirectUri := d.redirectUri
  verifier := d.verifier

/-- The pairs of the page. -/
def Drawn.pagePairs (d : Drawn) (env : LoginEnv) (clientId : Bytes) : List (Bytes × Bytes) :=
  [(ascii "client_id", clientId), (ascii "response_type", ascii "code"),
    (ascii "redirect_uri", d.redirectUri), (ascii "response_mode", ascii "query"),
    (ascii "scope", scopeSign ++ ascii " offline_access"), (ascii "state", d.state),
    (ascii "code_challenge", d.challenge env), (ascii "code_challenge_method", ascii "S256")]

/-- The pairs of the exchange. -/
def Drawn.codePairs (d : Drawn) (clientId : Bytes) : List (Bytes × Bytes) :=
  [(ascii "client_id", clientId), (ascii "grant_type", ascii "authorization_code"),
    (ascii "code", d.code), (ascii "redirect_uri", d.redirectUri),
    (ascii "code_verifier", d.verifier), (ascii "scope", scopeSign ++ ascii " offline_access")]

/-- The pairs of the query of a page, as the server reads them. -/
def readPage (url : Bytes) : List (Bytes × Bytes) := (parseQuery url).reverse

section Reading

variable {env : LoginEnv} {options : LoginOptions} {d : Drawn} {clientId : Bytes}

theorem page_eq : d.page env options = ascii "https://login.microsoftonline.com/" ++ options.tenant ++
    ascii "/oauth2/v2.0/authorize" ++ 63 :: formEncode (d.pagePairs env options.clientId) := by
  have hquery : ascii "/oauth2/v2.0/authorize?client_id=" =
      ascii "/oauth2/v2.0/authorize" ++ 63 :: (ascii "client_id" ++ [61]) := by decide
  have hkeys : ascii "&response_type=code&redirect_uri=" =
        38 :: (ascii "response_type" ++ 61 :: (ascii "code" ++ 38 :: (ascii "redirect_uri" ++ [61]))) ∧
      ascii "&response_mode=query&scope=" =
        38 :: (ascii "response_mode" ++ 61 :: (ascii "query" ++ 38 :: (ascii "scope" ++ [61]))) ∧
      ascii "&state=" = 38 :: (ascii "state" ++ [61]) ∧
      ascii "&code_challenge=" = 38 :: (ascii "code_challenge" ++ [61]) ∧
      ascii "&code_challenge_method=S256" =
        38 :: (ascii "code_challenge_method" ++ 61 :: ascii "S256") := by decide
  have hplain : urlEncode (ascii "code") = ascii "code" ∧ urlEncode (ascii "query") = ascii "query" ∧
      urlEncode (ascii "S256") = ascii "S256" := by decide
  obtain ⟨htype, hmode, hstate, hchallenge, hmethod⟩ := hkeys
  obtain ⟨hcode, hresponse, hhash⟩ := hplain
  have hdrawn : urlEncode d.state = d.state ∧ urlEncode (d.challenge env) = d.challenge env :=
    ⟨urlEncode_of_unreserved unreserved_hexEncode, urlEncode_of_unreserved unreserved_base64urlEncode⟩
  simp only [Drawn.page, authorizeUrl, hquery, htype, hmode, hstate, hchallenge, hmethod,
    Drawn.pagePairs, formEncode_cons, formItem, List.flatMap_cons, List.flatMap_nil, hcode, hresponse,
    hhash, hdrawn.1, hdrawn.2, List.append_assoc, List.cons_append, List.nil_append, List.append_nil]

/-- The page is read as its pairs, if the tenant does not begin a query. -/
theorem readPage_page (htenant : 63 ∉ options.tenant) :
    readPage (d.page env options) = d.pagePairs env options.clientId := by
  have hkeys : ∀ key ∈ (d.pagePairs env options.clientId).map Prod.fst, 38 ∉ key ∧ 61 ∉ key := by
    simp only [Drawn.pagePairs, List.map_cons, List.map_nil]
    decide
  have hfixed : 63 ∉ ascii "https://login.microsoftonline.com/" ∧ 63 ∉ ascii "/oauth2/v2.0/authorize" := by
    decide
  rw [readPage, page_eq, parseQuery_formEncode, List.reverse_reverse]
  · exact fun pair hpair => (hkeys pair.1 (List.mem_map_of_mem hpair)).1
  · exact fun pair hpair => (hkeys pair.1 (List.mem_map_of_mem hpair)).2
  · simp [hfixed, htenant]

theorem readForm_session : readForm (d.session options).form = d.codePairs options.clientId := by
  change readForm (formEncode (d.codePairs options.clientId)) = d.codePairs options.clientId
  refine readForm_formEncode ?_
  simp only [Drawn.codePairs, List.map_cons, List.map_nil]
  decide

end Reading

/-! ## One exchange for one page -/

def openingText (page : Bytes) : Bytes :=
  ascii "Opening browser to sign in...\n" ++ ascii "If it doesn't open automatically, visit:\n  " ++
    page ++ ascii "\n"

/-- What the environment gives a login that has a code. -/
structure Drawn.Given (d : Drawn) (env : LoginEnv) : Prop where
  verifier : env.verifierBytes = .ok d.verifierBytes
  port : env.port = .ok d.port
  /-- The code comes with the state of the page, and with no error. -/
  redirect : Authorized env d.target d.stateBytes d.code

def AuthEvent.Asks (event : AuthEvent) : Prop := ∃ url form, event = .asked url form

/-- The event is not a request, and no other page than this one is opened. -/
def AuthEvent.OpensOnly (page : Bytes) (event : AuthEvent) : Prop :=
  ¬event.Asks ∧ ∀ url, event = .launched url → url = page

/-- The log of a login that exchanges a code. -/
structure ExchangesCode (env : LoginEnv) (args : List Bytes) (log : List AuthEvent) (options : LoginOptions)
    (d : Drawn) (form : Bytes) (before after : List AuthEvent) : Prop where
  parsed : parseLoginArgs .default args = .ok options
  given : d.Given env
  split : log = before ++ .asked (tokenUrl options.tenant) form :: after
  shown : .told (openingText (d.page env options)) ∈ before
  others : ∀ event ∈ before ++ after, event.OpensOnly (d.page env options)
  page : 63 ∉ options.tenant → readPage (d.page env options) = d.pagePairs env options.clientId
  form : readForm form = d.codePairs options.clientId

section Runs

variable {env : LoginEnv} {options : LoginOptions} {session : LoginSession} {defaults : SignerTuple}
  {args : List Bytes} {s s' : AuthState} {outcome : Except Bytes Int}

theorem AuthEvent.Quiet.not_asks {event : AuthEvent} (h : event.Quiet) : ¬event.Asks := by
  rintro ⟨url, form, rfl⟩
  exact h

theorem opensOnly_told (page text : Bytes) : (AuthEvent.told text).OpensOnly page :=
  ⟨nofun, nofun⟩

theorem opensOnly_launched (page : Bytes) : (AuthEvent.launched page).OpensOnly page := by
  refine ⟨nofun, fun url h => ?_⟩
  cases h
  rfl

theorem ends_openBrowser (page : Bytes) : Ends (openBrowser env page) s
    (fun _ s' => ∃ launch : AuthEvent, launch.OpensOnly page ∧ s'.log = s.log ++ [launch])
    fun _ _ => True := by
  unfold openBrowser
  split
  · exact ⟨_, opensOnly_launched page, rfl⟩
  · exact ⟨_, opensOnly_told page _, rfl⟩

/-- A session comes of what was drawn, after its page has been shown. -/
theorem ends_authorize : Ends (authorize env options) s
    (fun session s' => ∀ authorized, session = some authorized → ∃ (d : Drawn) (launch : AuthEvent),
      d.Given env ∧ authorized = d.session options ∧ launch.OpensOnly (d.page env options) ∧
      s'.log = s.log ++ [.told (openingText (d.page env options)), launch, .responded signedInHtml])
    fun _ _ => True := by
  unfold authorize
  refine ends_lift_bind (fun verifierBytes hverifier => ?_) fun _ => trivial
  refine ends_lift_bind (fun stateBytes hstate => ?_) fun _ => trivial
  refine ends_lift_bind (fun port hport => ?_) fun _ => trivial
  rw [ends_bind, record, ends_change]
  refine (ends_openBrowser _).bind fun _ s' hlaunch => ?_
  obtain ⟨launch, hlaunch, hlog⟩ := hlaunch
  refine ends_lift_bind (fun target htarget => ?_) fun _ => trivial
  split
  next refusal _ =>
    refine Ends.bind (P := fun _ _ => True) (ends_of_forall (fun _ _ => trivial) fun _ _ => trivial) ?_
    intro _ _ _
    rw [ends_bind, record, ends_change]
    exact fun authorized h => by cases h
  next code hcode =>
    obtain ⟨herror, hcode, hreceived⟩ := redirectCode_eq_ok hcode
    rw [answer, ends_bind, ends_bind, record, ends_change, ends_lift, sat_iff]
    refine ⟨fun _ _ authorized h => ?_, fun _ _ => trivial⟩
    cases h
    refine ⟨⟨verifierBytes, stateBytes, port, target, code⟩, launch,
      ⟨hverifier, hport, htarget, hstate, herror, hcode, hreceived⟩, rfl, hlaunch, ?_⟩
    rw [AuthState.record, hlog, AuthState.record, List.append_assoc, List.append_assoc]
    rfl

/-- The part from the exchange on asks once, at its beginning, and opens no page. -/
theorem finished_log (h : Finished env session defaults s outcome s') (page : Bytes) :
    ∃ after, s'.log = s.log ++ .asked (tokenUrl session.tenant) session.form :: after ∧
      ∀ event ∈ after, event.OpensOnly page := by
  cases h with
  | threw what => exact ⟨[], rfl, nofun⟩
  | cached told hpost hcache hdump houtcome =>
      rename_i resp cache text
      refine ⟨.wroteCache text :: told.map .told, by simp, ?_⟩
      intro event hevent
      rcases List.mem_cons.mp hevent with rfl | hevent
      · exact ⟨nofun, nofun⟩
      · obtain ⟨note, -, rfl⟩ := List.mem_map.mp hevent
        exact opensOnly_told page note
  | saved greeting note hpost hcache hdump hconfig =>
      refine ⟨_, rfl, ?_⟩
      intro event hevent
      simp only [List.mem_cons, List.not_mem_nil, or_false] at hevent
      rcases hevent with rfl | rfl | rfl | rfl
      · exact ⟨nofun, nofun⟩
      · exact opensOnly_told page greeting
      · exact ⟨nofun, nofun⟩
      · exact opensOnly_told page note

/-- What a login does to a state. -/
inductive LoginRun (env : LoginEnv) (args : List Bytes) (s s' : AuthState) : Prop where
  | idle (h : LeavesFiles s s')
  | exchanged {options : LoginOptions} {d : Drawn} {launch : AuthEvent} {defaults : SignerTuple}
      {opened : AuthState} {outcome : Except Bytes Int}
      (hargs : parseLoginArgs .default args = .ok options) (hgiven : d.Given env)
      (hleaves : LeavesFiles s opened) (hlaunch : launch.OpensOnly (d.page env options))
      (hlog : opened.log = s.log ++
        [.told (openingText (d.page env options)), launch, .responded signedInHtml])
      (hfinished : Finished env (d.session options) defaults opened outcome s')

theorem loginRun_loginMainAlone (env : LoginEnv) (args : List Bytes) :
    Moves (LoginRun env args) (loginMainAlone env args) := by
  have hquiet : ∀ {m : AuthProgram Int}, Moves LeavesFiles m → Moves (LoginRun env args) m :=
    fun hm => hm.mono fun _ _ => .idle
  unfold loginMainAlone
  split
  next =>
    exact hquiet ((moves_lift _).bind fun _ => (leavesFiles_record (by trivial)).bind fun _ =>
      moves_pure _)
  next => exact hquiet ((leavesFiles_record (by trivial)).bind fun _ => moves_pure _)
  next options hargs =>
    split
    next => exact hquiet ((leavesFiles_record (by trivial)).bind fun _ => moves_pure _)
    next defaults hdefaults =>
      intro s
      refine (((authorize_yields s).and ends_authorize).mono (fun _ _ => id) ?_).bind ?_
      · exact fun _ _ h => .idle h.1
      · rintro session opened ⟨⟨hleaves, -⟩, hsession⟩
        cases session with
        | none => exact .idle hleaves
        | some session =>
            obtain ⟨d, launch, hgiven, rfl, hlaunch, hlog⟩ := hsession session rfl
            exact finished_finishLogin.mono
              (fun _ _ hfinished => .exchanged hargs hgiven hleaves hlaunch hlog hfinished)
              fun _ _ hfinished => .exchanged hargs hgiven hleaves hlaunch hlog hfinished

/-- Nothing is asked, or one code is exchanged. -/
def Exchanged (env : LoginEnv) (args : List Bytes) (log : List AuthEvent) : Prop :=
  (∀ event ∈ log, ¬event.Asks) ∨ ∃ options d form before after,
    ExchangesCode env args log options d form before after

end Runs

/-- A login asks for no token, or for one: after it has shown its page, and then it has opened no
other one. The exchange is read as its pairs, with the code that came with the state of the page, and
with the verifier that the challenge of the page is the hash of; unless the tenant begins a query, the
page is read as its pairs, with the same client and redirect address. -/
theorem loginMain_bindsCode (env : LoginEnv) (args : List Bytes) (cache config : Option Bytes) :
    Exchanged env args (loginMainAlone env args ⟨cache, config, []⟩).2.log := by
  cases moves_iff.mp (loginRun_loginMainAlone env args) ⟨cache, config, []⟩ with
  | idle h =>
      obtain ⟨-, -, events, hlog, hquiet⟩ := h
      rw [hlog, List.nil_append]
      exact .inl fun event hevent => (hquiet event hevent).not_asks
  | exchanged hargs hgiven hleaves hlaunch hlog hfinished =>
      rename_i options d launch defaults opened outcome
      obtain ⟨after, hafter, hothers⟩ := finished_log hfinished (d.page env options)
      refine .inr ⟨options, d, (d.session options).form, opened.log, after, hargs, hgiven, hafter,
        ?_, ?_, readPage_page, readForm_session⟩
      · rw [hlog]
        simp
      · intro event hevent
        rw [hlog] at hevent
        simp only [List.nil_append, List.cons_append, List.mem_cons] at hevent
        rcases hevent with rfl | rfl | rfl | hevent
        · exact opensOnly_told _ _
        · exact hlaunch
        · exact ⟨nofun, nofun⟩
        · exact hothers event hevent

end AasSign
