import LanguageLlm.Desktop.Companion
import LanguageLlm.Desktop.NetworkConsent
import LanguageLlm.Lyrics.LrcLib

/-!
# What the companion asks the lyrics provider

`lyrics_request_of_run`: whatever the connections send, a request that leaves the companion asks the
search of LRCLIB for the title and the artist of the message that it is sent for, and for nothing
else; it is the request that `buildLrcLibSearchUrl` builds for them.
-/

namespace LanguageLlm.Desktop

open Lib Handler PageTranslate Lyrics

/-! ## How the companion writes a query -/

theorem toList_byteArray (bytes : ByteArray) : bytes.toList = bytes.data.toList := by
  have hloop : ∀ n i acc, bytes.size - i = n →
      ByteArray.toList.loop bytes i acc = acc.reverse ++ bytes.data.toList.drop i := by
    intro n
    induction n with
    | zero =>
      intro i acc hn
      have hle : bytes.data.toList.length ≤ i := by
        rw [Array.length_toList]
        exact Nat.le_of_sub_eq_zero hn
      rw [ByteArray.toList.loop, if_neg (by omega), List.drop_eq_nil_of_le hle, List.append_nil]
    | succ n ih =>
      intro i acc hn
      have hlt : i < bytes.size := by omega
      have hdrop : bytes.data.toList.drop i = bytes.get! i :: bytes.data.toList.drop (i + 1) := by
        rw [List.drop_eq_getElem_cons (by simpa using hlt)]
        congr 1
        simp [ByteArray.get!, hlt]
      rw [ByteArray.toList.loop, if_pos hlt, ih (i + 1) _ (by omega), hdrop]
      simp
  rw [ByteArray.toList, hloop _ 0 [] rfl]
  rfl

/-- The bytes of `s.bytes()`. -/
theorem toNat_bytes (s : String) : s.toUTF8.toList.map UInt8.toNat = utf8Encode s.toList := by
  rw [toList_byteArray, String.toUTF8_eq_toByteArray, ← String.utf8Encode_toList, List.utf8Encode,
    List.toList_data_toByteArray, List.map_flatMap, utf8Encode]
  rfl

/-- What `urlencoding_encode` writes for a byte. -/
def unreservedByte (b : Nat) : List Char :=
  let c := Char.ofNat b
  if c.isAlphanum || c = '-' || c = '_' || c = '.' || c = '~' then [c] else percentEncodeByte b

/-- A byte is percent-encoded, or it is an unreserved character and stands for itself. -/
theorem unreservedByte_cases {b : Nat} (hb : b < 256) :
    unreservedByte b = percentEncodeByte b ∨
      unreservedByte b = [Char.ofNat b] ∧ b < 128 ∧ b ≠ 0x25 ∧ b ≠ 0x2B ∧
        (b = 0x7E ∨ formSet b = false) := by
  have hall : ((List.range 256).all fun b => decide (unreservedByte b = percentEncodeByte b ∨
      unreservedByte b = [Char.ofNat b] ∧ b < 128 ∧ b ≠ 0x25 ∧ b ≠ 0x2B ∧
        (b = 0x7E ∨ formSet b = false))) = true := by decide +kernel
  exact of_decide_eq_true (List.all_eq_true.1 hall b (List.mem_range.2 hb))

theorem toNat_ofNat_ascii {b : Nat} (hb : b < 128) : (Char.ofNat b).toNat = b := by
  have hall : ∀ b, b < 128 → (Char.ofNat b).toNat = b := by decide
  exact hall b hb

theorem reads_unreservedByte {b : Nat} (hb : b < 256) (rest : List Char) :
    percentDecode ((unreservedByte b).map plusAsSpace ++ rest) = b :: percentDecode rest := by
  rcases unreservedByte_cases hb with h | ⟨h, hascii, hpercent, hplus, -⟩
  · have hself : (percentEncodeByte b).map plusAsSpace = percentEncodeByte b := by
      have hmem : ∀ c ∈ [b].flatMap percentEncodeByte, plusAsSpace c = c := by
        intro c hc
        refine if_neg ?_
        rintro rfl
        rcases mem_percentEncodeBytes (List.forall_mem_singleton.2 hb) hc with hc | hc <;> cases hc
      rw [List.flatMap_singleton] at hmem
      rw [List.map_congr_left hmem, List.map_id']
    rw [h, hself, percentDecode_percentEncodeByte hb]
  · have hnat := toNat_ofNat_ascii hascii
    have hself : plusAsSpace (Char.ofNat b) = Char.ofNat b := by
      refine if_neg fun heq => ?_
      rw [heq] at hnat
      exact hplus hnat.symm
    have hne : Char.ofNat b ≠ '%' := by
      intro heq
      rw [heq] at hnat
      exact hpercent hnat.symm
    rw [h, List.map_singleton, hself, List.singleton_append, percentDecode_cons hne,
      utf8Bytes_ascii (by omega), hnat, List.singleton_append]

theorem mem_unreservedByte {b : Nat} (hb : b < 256) {c : Char} (hc : c ∈ unreservedByte b) :
    c = '+' ∨ c = '%' ∨ c = '~' ∨ formSet c.toNat = false := by
  rcases unreservedByte_cases hb with h | ⟨h, hascii, -, -, hkept⟩
  · rw [h] at hc
    have hbytes : c ∈ [b].flatMap percentEncodeByte := by
      rw [List.flatMap_singleton]
      exact hc
    rcases mem_percentEncodeBytes (List.forall_mem_singleton.2 hb) hbytes with hc | hdigit
    · exact Or.inr (Or.inl hc)
    · have hbounds := toNat_of_hexValue hdigit
      refine Or.inr (Or.inr (Or.inr ?_))
      simp [formSet]
      omega
  · rw [h, List.mem_singleton] at hc
    subst hc
    rcases hkept with rfl | hkept
    · exact Or.inr (Or.inr (Or.inl rfl))
    · rw [toNat_ofNat_ascii hascii]
      exact Or.inr (Or.inr (Or.inr hkept))

/-- How `urlencoding_encode` writes. -/
def companionWriter : ByteWriter where
  write := unreservedByte
  reads _ hb rest := reads_unreservedByte hb rest
  plain _ hb _ hc := mem_unreservedByte hb hc

/-- What `urlencoding_encode` appends for a byte. -/
def encodedByte (b : UInt8) : String :=
  let c := Char.ofNat b.toNat
  if c.isAlphanum || c = '-' || c = '_' || c = '.' || c = '~' then String.singleton c
  else
    let digits := Nat.toDigits 16 b.toNat
    String.ofList ('%' :: (List.leftpad 2 '0' digits).map Char.toUpper)

theorem toList_encodedByte (b : UInt8) : (encodedByte b).toList = unreservedByte b.toNat := by
  have hdigits : ((List.range 256).all fun b => decide
      ('%' :: (List.leftpad 2 '0' (Nat.toDigits 16 b)).map Char.toUpper =
        percentEncodeByte b)) = true := by decide +kernel
  have hpercent := of_decide_eq_true
    (List.all_eq_true.1 hdigits b.toNat (List.mem_range.2 b.toNat_lt))
  unfold encodedByte unreservedByte
  dsimp only
  split
  · exact String.toList_singleton _
  · rw [String.toList_ofList, hpercent]

theorem toList_urlencodingEncode (s : String) :
    (urlencodingEncode s).toList = companionWriter.writeText s.toList := by
  have heq : urlencodingEncode s = String.join (s.toUTF8.toList.map encodedByte) := rfl
  rw [heq, String.toList_join, ByteWriter.writeText, ← toNat_bytes, List.flatMap_map,
    List.flatMap_map]
  exact List.flatMap_congr fun b _ => toList_encodedByte b

/-! ## The requests of a handler -/

/-- The title and the artist that a message asks for. -/
def requestParams (value : Json) : List (List Char × List Char) :=
  ("track_name".toList, ((fieldOrPayload value "trackName").getD "").toList) ::
    match fieldOrPayload value "artistName" with
    | some a => [("artist_name".toList, a.toList)]
    | none => []

/-- The URL of the request for a message. -/
def IsRequest (value : Json) (url : String) : Prop :=
  url.toList = lrcLibSearch ++ '?' :: companionWriter.writeQuery (requestParams value)

/-- Every URL that a handler asks for meets `P`. -/
def Asks {α : Type} (P : String → Prop) : Handler α → Prop
  | .pure _ | .panic => True
  | .send _ next => Asks P next
  | .now next => ∀ t, Asks P (next t)
  | .ask next => ∀ an, Asks P (next an)
  | .lock _ next => ∀ t an s, Asks P (next t an s)
  | .fetch url next => P url ∧ ∀ response, Asks P (next response)

section Asks

variable {α : Type} {P : String → Prop}

theorem Offline.asks {h : Handler α} (hh : Offline h) : Asks P h := by
  induction h with
  | pure | panic => trivial
  | send message next ih => exact ih hh
  | now next ih => exact fun t => ih t (hh t)
  | ask next ih => exact fun an => ih an (hh an)
  | lock update next ih => exact fun t an s => ih t an s (hh t an s).2
  | fetch url next => exact hh.elim

/-- A handler that has acted asks for no other URLs. -/
theorem Asks.next {h h' : Handler Unit} {t : Nat} {an : Answers} {s s' : Stores} (hh : Asks P h)
    (hn : Next t an h s h' s') : Asks P h' := by
  cases hn with
  | send => exact hh
  | now => exact hh t
  | ask => exact hh an
  | lock => exact hh t an s
  | fetch => exact hh.2 an.tracks

end Asks

theorem toList_requestUrl (trackName : String) (artistName : Option String) :
    ("https://lrclib.net/api/search?track_name=" ++ urlencodingEncode trackName ++
      (match artistName with
        | some a => "&artist_name=" ++ urlencodingEncode a
        | none => "")).toList =
      lrcLibSearch ++ '?' :: companionWriter.writeQuery
        (("track_name".toList, trackName.toList) ::
          match artistName with
          | some a => [("artist_name".toList, a.toList)]
          | none => []) := by
  have hstart : "https://lrclib.net/api/search?track_name=".toList =
      lrcLibSearch ++ '?' :: (companionWriter.writeText "track_name".toList ++ ['=']) := by
    decide +kernel
  have hartist : "&artist_name=".toList =
      '&' :: (companionWriter.writeText "artist_name".toList ++ ['=']) := by decide +kernel
  cases artistName with
  | none =>
    simp only [String.toList_append, toList_urlencodingEncode, hstart, ByteWriter.writeQuery,
      ByteWriter.writePair, List.map_cons, List.map_nil, List.intercalate_singleton]
    simp
  | some a =>
    simp only [String.toList_append, toList_urlencodingEncode, hstart, hartist,
      ByteWriter.writeQuery, ByteWriter.writePair, List.map_cons, List.map_nil,
      List.intercalate_cons_cons, List.intercalate_singleton]
    simp

theorem asks_handleLyricsResolve (value : Json) (token : String) :
    Asks (IsRequest value) (handleLyricsResolve value token) := by
  intro t an s
  change Asks (IsRequest value) (if !s.lyricsNetworkAllowed then _ else _)
  split
  · exact Offline.asks offline_sendError
  · refine ⟨toList_requestUrl _ _, fun response => Offline.asks ?_⟩
    simp only [Handler.bind]
    split
    · refine Offline.bind ?_ fun _ => offline_nowMs.bind fun _ => offline_reply _
      exact (offline_lockMemory _).bind fun _ =>
        (offline_withSqlite _).bind fun _ => offline_return _
    · exact offline_sendError

theorem asks_of_begins {value : Json} {body : Handler Unit} (hbody : Begins value body) :
    Asks (IsRequest value) body := by
  cases hbody with
  | offline _ hbody => exact hbody.asks
  | setting => exact fun _ _ _ => trivial
  | resolving => exact asks_handleLyricsResolve value _

/-! ## The requests of the companion -/

/-- Every handler of the server asks for the URL of its own message, if for any. -/
def OwnRequests (s : Server) : Prop :=
  ∀ (c : Nat) (conn : Connection) (value : Json) (arm : Arm), s.connections[c]? = some conn →
    conn.task = .handling value arm → arm.Handles (Asks (IsRequest value))

section Server

variable {env : External} {debug : Bool} {s s' s₀ : Server} {h : List (Fired Server NetworkEvent)}

theorem Arm.Handles.mono {P Q : Handler Unit → Prop} (hPQ : ∀ body, P body → Q body) {arm : Arm}
    (harm : arm.Handles P) : arm.Handles Q := by
  induction arm with
  | next | leave => trivial
  | send _ rest ih | purge _ rest ih | rotate rest ih => exact ih harm
  | now rest ih => exact fun t => ih t (harm t)
  | valid _ _ rest ih => exact fun ok => ih ok (harm ok)
  | issue _ _ rest ih => exact fun session => ih session (harm session)
  | handle body => exact hPQ body harm

theorem handles_dispatch (env : External) (debug : Bool)
    (allowedExtensionId sessionToken : Option String) (value : Json) :
    (dispatch env debug allowedExtensionId sessionToken value).Handles
      (Asks (IsRequest value)) :=
  Arm.Handles.mono (fun _ => asks_of_begins) (begins_dispatch ..)

/-- An action of a task leaves it a handler of the same message. -/
theorem handles_act {c : Nat} {conn : Connection} {value : Json} {a : Answers} {arm : Arm}
    (harm : arm.Handles (Asks (IsRequest value))) (hs : s.act c conn value a arm = some s') :
    ∃ conn', s'.connections = s.connections.set c conn' ∧
      ∀ value' arm', conn'.task = .handling value' arm' →
        arm'.Handles (Asks (IsRequest value')) := by
  cases arm with
  | handle body =>
    obtain rfl := Option.some.inj hs
    obtain ⟨conn', hset, hnext⟩ := s.actHandler_next c conn value a body
    refine ⟨conn', hset, fun value' arm' htask => ?_⟩
    rcases hnext with ⟨-, hended, -⟩ | ⟨body', htask', hnext⟩
    · exact absurd htask (hended _ _)
    · rw [htask'] at htask
      obtain ⟨rfl, rfl⟩ := Task.handling.inj htask
      exact Asks.next harm hnext
  | issue _ _ rest =>
    simp only [Server.act] at hs
    split at hs
    · cases hs
    · obtain rfl := Option.some.inj hs
      refine ⟨_, rfl, ?_⟩
      rintro _ _ ⟨⟩
      exact harm _
  | rotate rest =>
    simp only [Server.act] at hs
    split at hs
    · cases hs
    · obtain rfl := Option.some.inj hs
      refine ⟨_, rfl, ?_⟩
      rintro _ _ ⟨⟩
      exact harm
  | next | leave =>
    obtain rfl := Option.some.inj hs
    refine ⟨_, rfl, ?_⟩
    rintro _ _ ⟨⟩
  | send | purge =>
    obtain rfl := Option.some.inj hs
    refine ⟨_, rfl, ?_⟩
    rintro _ _ ⟨⟩
    exact harm
  | now | valid =>
    obtain rfl := Option.some.inj hs
    refine ⟨_, rfl, ?_⟩
    rintro _ _ ⟨⟩
    exact harm _

theorem OwnRequests.set (hO : OwnRequests s) {c : Nat} {conn' : Connection}
    (hset : s'.connections = s.connections.set c conn')
    (hconn' : ∀ value arm, conn'.task = .handling value arm →
      arm.Handles (Asks (IsRequest value))) : OwnRequests s' := by
  intro d conn₁ value arm hd htask
  rw [hset] at hd
  rcases Server.set_connection hd with ⟨rfl, rfl⟩ | ⟨-, hold⟩
  · exact hconn' value arm htask
  · exact hO d conn₁ value arm hold htask

theorem OwnRequests.step (hO : OwnRequests s) {l : NetworkEvent}
    (hs : networkStep env debug s l = some s') : OwnRequests s' := by
  cases l with
  | setLyricsNetwork allowed =>
    obtain rfl := Option.some.inj hs
    exact hO
  | server e =>
    rcases Server.step_cases hs with ⟨origin, t, rfl, rfl⟩ |
      ⟨c, frame, conn, rfl, hconn, htask, rfl⟩ |
      ⟨c, a, conn, value, arm, rfl, hconn, htask, hact⟩ | ⟨now, rfl, -⟩
    · rcases Server.upgrade_cases (s := s) debug origin t with heq | ⟨conn, heq, -, -, htask⟩
      · rw [heq]
        exact hO
      · rw [heq]
        intro d conn' value arm hd hhandling
        rcases Server.push_connection hd with ⟨rfl, rfl⟩ | hold
        · rcases htask with ⟨hlisten, -⟩ | hreturned
          · rw [hlisten] at hhandling
            cases hhandling
          · rw [hreturned] at hhandling
            cases hhandling
        · exact hO d conn' value arm hold hhandling
    · refine hO.set rfl fun value arm hhandling => ?_
      obtain ⟨-, -, harm⟩ := Connection.receive_spec env debug s.companion htask frame
      rw [harm value arm hhandling]
      exact handles_dispatch ..
    · obtain ⟨conn', hset, hconn'⟩ := handles_act (hO c conn value arm hconn htask) hact
      exact hO.set hset hconn'
    · exact hO

/-- The two builders ask for the same, unless the artist is empty. -/
theorem searchParams_of_message {value : Json}
    (hartist : fieldOrPayload value "artistName" ≠ some "") (roundedText : JsNumber → String) :
    searchParams roundedText
        { trackName := (fieldOrPayload value "trackName").getD ""
          artistName := fieldOrPayload value "artistName"
          albumName := none
          duration := none } = requestParams value := by
  unfold searchParams requestParams
  cases hfield : fieldOrPayload value "artistName" with
  | none => rfl
  | some a =>
    have hne : a ≠ "" := by
      rintro rfl
      exact hartist hfield
    have hname : "track_name".toList ≠ "artist_name".toList := by decide
    dsimp only
    rw [if_neg hne, setParam_nil, setParam_second hname]

/-- In every run, over any number of connections and with the commands of the GUI between their
steps, a request that a handler sends is a search of LRCLIB: whatever the message holds, the URL is
read as the address of the search with the title and the artist of that message as the only
parameters and without a fragment. It is read as the URL that `buildLrcLibSearchUrl` builds for them
is, unless the artist is empty. -/
theorem lyrics_request_of_run (hfresh : s₀.connections = [])
    (hr : Run (networkStep env debug) s₀ h s) {c n : Nat} {value : Json} {url : String}
    {next : Option Json → Handler Unit} (hin : InHandler s c n value (.fetch url next))
    {bases : UrlBases} {base : UrlBase} (hbase : bases.parse lrcLibSearch = some base) :
    ∃ query query',
      bases.newUrl url.toList = some ⟨base, some query, none, requestParams value⟩ ∧
      (fieldOrPayload value "artistName" ≠ some "" → ∀ roundedText,
        bases.newUrl (buildLrcLibSearchUrl roundedText
          { trackName := (fieldOrPayload value "trackName").getD ""
            artistName := fieldOrPayload value "artistName"
            albumName := none
            duration := none }) = some ⟨base, some query', none, requestParams value⟩) := by
  have hO : OwnRequests s := by
    refine Run.inv OwnRequests ?_ (fun s l s' hO hs => hO.step hs) hr
    intro c conn value arm hconn
    rw [hfresh] at hconn
    cases hconn
  obtain ⟨conn, hconn, -, htask⟩ := hin
  have hurl : IsRequest value url := (hO c conn value _ hconn htask).1
  refine ⟨companionWriter.writeQuery (requestParams value), formSerialize (requestParams value),
    ?_, fun hartist roundedText => ?_⟩
  · rw [hurl]
    exact newUrl_writeQuery hbase plain_lrcLibSearch companionWriter _
  · rw [newUrl_buildLrcLibSearchUrl hbase, searchParams_of_message hartist]

end Server

/-- The parser on the address of the search. -/
def lrcLibBases : UrlBases where
  parse t := if t = lrcLibSearch then some ⟨lrcLibSearch, true⟩ else none
  parse_text h := by
    split_ifs at h
    rw [← Option.some.inj h]
    exact if_pos rfl
  plain h := by
    split_ifs at h
    rw [← Option.some.inj h]
    intro c hc
    obtain ⟨hlow, hhash, hmark⟩ := plain_lrcLibSearch c hc
    refine ⟨hmark, hhash, isTabOrNewline_of_isStripped ?_⟩
    simp [isStripped]
    omega
  head_kept h := by
    split_ifs at h
    rw [← Option.some.inj h]
    intro c hc
    have hlow := (plain_lrcLibSearch c (List.mem_of_head? hc)).1
    simp [isStripped]
    omega
  last_kept h := by
    split_ifs at h
    rw [← Option.some.inj h]
    intro c hc
    have hlow := (plain_lrcLibSearch c (List.mem_of_getLast? hc)).1
    simp [isStripped]
    omega

theorem parse_lrcLibSearch : lrcLibBases.parse lrcLibSearch = some ⟨lrcLibSearch, true⟩ :=
  by simp [lrcLibBases]

/-- The song of the message is asked for. -/
theorem lyrics_request_of_resolve : ∃ h s c n value url next,
    Run (networkStep resolveMessages false)
      (Server.start "bootstrap" (some "abcdefgh") (.new none) 1000) h s ∧
    InHandler s c n value (.fetch url next) ∧
    ∃ query query',
      lrcLibBases.newUrl url.toList =
        some ⟨⟨lrcLibSearch, true⟩, some query, none, requestParams value⟩ ∧
      (fieldOrPayload value "artistName" ≠ some "" → ∀ roundedText,
        lrcLibBases.newUrl (buildLrcLibSearchUrl roundedText
          { trackName := (fieldOrPayload value "trackName").getD ""
            artistName := fieldOrPayload value "artistName"
            albumName := none
            duration := none }) =
          some ⟨⟨lrcLibSearch, true⟩, some query', none, requestParams value⟩) := by
  have hend : (exec (networkStep resolveMessages false)
      (Server.start "bootstrap" (some "abcdefgh") (.new none) 1000)
      (resolveEvents.take (resolveEvents.length - 1))).map
      (fun x => (requestOf x.2 0).map Prod.fst) = some (some 2) := by
    decide +kernel
  obtain ⟨⟨h, s⟩, hx, hlast⟩ := Option.map_eq_some_iff.1 hend
  obtain ⟨⟨n, value⟩, hsome, -⟩ := Option.map_eq_some_iff.1 hlast
  obtain ⟨url, next, hin⟩ := requestOf_eq_some hsome
  have hr := exec_run hx
  exact ⟨h, s, 0, n, value, url, next, hr, hin,
    lyrics_request_of_run rfl hr hin parse_lrcLibSearch⟩

end LanguageLlm.Desktop
