/-
The events on the bus (`src/events.rs`).
-/
import DataApi.State
import DataApi.Ids

namespace DataApi

structure SessionStateChanged where
  sessionId : Uuid
  guildId : Int
  old : SessionStatus
  new : SessionStatus
  deriving DecidableEq

structure ChunkUploaded where
  sessionId : Uuid
  guildId : Int
  pseudoId : PseudoId
  seq : Int
  sizeBytes : Int
  deriving DecidableEq

structure ResourceRef where
  sessionId : Uuid
  guildId : Int
  id : Uuid
  deriving DecidableEq

structure MuteRangeRef where
  sessionId : Uuid
  guildId : Int
  pseudoId : PseudoId
  rangeId : Uuid
  deriving DecidableEq

structure AudioDeleted where
  sessionId : Uuid
  guildId : Int
  pseudoId : PseudoId
  deriving DecidableEq

inductive Event
  | sessionStateChanged (atTs : Timestamp) (data : SessionStateChanged)
  | chunkUploaded (atTs : Timestamp) (data : ChunkUploaded)
  | segmentCreated (atTs : Timestamp) (data : ResourceRef)
  | segmentUpdated (atTs : Timestamp) (data : ResourceRef)
  | segmentDeleted (atTs : Timestamp) (data : ResourceRef)
  | beatCreated (atTs : Timestamp) (data : ResourceRef)
  | beatUpdated (atTs : Timestamp) (data : ResourceRef)
  | beatDeleted (atTs : Timestamp) (data : ResourceRef)
  | sceneCreated (atTs : Timestamp) (data : ResourceRef)
  | sceneUpdated (atTs : Timestamp) (data : ResourceRef)
  | sceneDeleted (atTs : Timestamp) (data : ResourceRef)
  | muteRangeCreated (atTs : Timestamp) (data : MuteRangeRef)
  | muteRangeDeleted (atTs : Timestamp) (data : MuteRangeRef)
  | audioDeleted (atTs : Timestamp) (data : AudioDeleted)
  deriving DecidableEq

namespace Event

def sessionId : Event → Uuid
  | .sessionStateChanged _ data => data.sessionId
  | .chunkUploaded _ data => data.sessionId
  | .segmentCreated _ data | .segmentUpdated _ data | .segmentDeleted _ data
  | .beatCreated _ data | .beatUpdated _ data | .beatDeleted _ data
  | .sceneCreated _ data | .sceneUpdated _ data | .sceneDeleted _ data => data.sessionId
  | .muteRangeCreated _ data | .muteRangeDeleted _ data => data.sessionId
  | .audioDeleted _ data => data.sessionId

def guildId : Event → Int
  | .sessionStateChanged _ data => data.guildId
  | .chunkUploaded _ data => data.guildId
  | .segmentCreated _ data | .segmentUpdated _ data | .segmentDeleted _ data
  | .beatCreated _ data | .beatUpdated _ data | .beatDeleted _ data
  | .sceneCreated _ data | .sceneUpdated _ data | .sceneDeleted _ data => data.guildId
  | .muteRangeCreated _ data | .muteRangeDeleted _ data => data.guildId
  | .audioDeleted _ data => data.guildId

/-- The name in the wire format's `type` tag. -/
def name : Event → String
  | .sessionStateChanged _ _ => "session_state_changed"
  | .chunkUploaded _ _ => "chunk_uploaded"
  | .segmentCreated _ _ => "segment_created"
  | .segmentUpdated _ _ => "segment_updated"
  | .segmentDeleted _ _ => "segment_deleted"
  | .beatCreated _ _ => "beat_created"
  | .beatUpdated _ _ => "beat_updated"
  | .beatDeleted _ _ => "beat_deleted"
  | .sceneCreated _ _ => "scene_created"
  | .sceneUpdated _ _ => "scene_updated"
  | .sceneDeleted _ _ => "scene_deleted"
  | .muteRangeCreated _ _ => "mute_range_created"
  | .muteRangeDeleted _ _ => "mute_range_deleted"
  | .audioDeleted _ _ => "audio_deleted"

end Event
end DataApi
