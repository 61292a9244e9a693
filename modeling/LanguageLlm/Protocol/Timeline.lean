/-!
# Cues and timelines

The caption data of the protocol package's `types.ts`.
-/

namespace LanguageLlm.Protocol

inductive Provenance where
  | humanCaption
  | autoCaption
  | asr
  | userEdit
  | mt
  | vlmCorrected
  | lyricsOpenApi
  | lyricsImport
  | pageTranslate
  deriving DecidableEq

def Provenance.text : Provenance → String
  | humanCaption => "human-caption"
  | autoCaption => "auto-caption"
  | asr => "asr"
  | userEdit => "user-edit"
  | mt => "mt"
  | vlmCorrected => "vlm-corrected"
  | lyricsOpenApi => "lyrics-open-api"
  | lyricsImport => "lyrics-import"
  | pageTranslate => "page-translate"

inductive CaptionSourceKind where
  | human
  | auto
  | asrLive
  | asrImport
  | userEdit
  deriving DecidableEq

def CaptionSourceKind.text : CaptionSourceKind → String
  | human => "human"
  | auto => "auto"
  | asrLive => "asr-live"
  | asrImport => "asr-import"
  | userEdit => "user-edit"

structure Cue where
  id : String
  startMs : Int
  endMs : Int
  text : String
  provenance : Provenance
  deriving DecidableEq

structure SourceTimeline where
  videoId : String
  cues : List Cue
  sourceHash : String
  captionSource : Option CaptionSourceKind
  developmentFallback : Option Bool
  deriving DecidableEq

structure GlossaryEntry where
  source : String
  target : String
  locked : Bool

end LanguageLlm.Protocol
