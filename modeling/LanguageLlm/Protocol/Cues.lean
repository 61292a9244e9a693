import LanguageLlm.Protocol.Timeline

/-!
# Cues of the parsers

The cues and timelines that the parsers make, before their times are known to be numbers a timeline
may have.
-/

namespace LanguageLlm.Protocol

variable {τ : Type}

/-- A cue with times of a type. -/
structure CueOf (τ : Type) where
  id : String
  startMs : τ
  endMs : τ
  text : String
  provenance : Provenance

structure TimelineOf (τ : Type) where
  videoId : String
  cues : List (CueOf τ)
  sourceHash : String
  captionSource : CaptionSourceKind

end LanguageLlm.Protocol
