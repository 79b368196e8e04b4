import Chipbox.Foundation.Run
import Chipbox.Foundation.Word
import Chipbox.Foundation.BoundedQueue
import Chipbox.Foundation.Table
import Chipbox.Gme.FadeOut
import Chipbox.Psflib.Traversal
import Chipbox.Psflib.RoundTrip
import Chipbox.Psx.Zero
import Chipbox.Psx.Unaligned
import Chipbox.Player.Playlist
import Chipbox.Native.Fifo
import Chipbox.Native.Backend
import Chipbox.Native.Frames
import Chipbox.Native.Vgm
import Chipbox.Native.LastError
import Chipbox.Native.Ownership
import Chipbox.Native.Stream
import Chipbox.Native.Seek
import Chipbox.Library.Names
import Chipbox.Library.Store
import Chipbox.Foundation.Pairing
import Chipbox.Library.Links
import Chipbox.Library.Storage
import Chipbox.Library.Scanner
import Chipbox.Library.Walk
import Chipbox.Library.Faces
import Chipbox.Player.IndexSafety
import Chipbox.Player.Tour
import Chipbox.Native.FifoRefinement
import Chipbox.Playback.Commands
import Chipbox.Playback.Focus
import Chipbox.Playback.Start
import Chipbox.Native.Lossless
import Chipbox.Playback.Pipeline
import Chipbox.Playback.Moves
import Chipbox.Playback.Pool
import Chipbox.Playback.Timestamps
import Chipbox.Playback.Circulation
import Chipbox.Playback.Handover
import Chipbox.Playback.Requests
import Chipbox.Playback.Threads
import Chipbox.Playback.Exclusion
import Chipbox.Playback.LifeCycle
import Chipbox.Library.Completeness
import Chipbox.Library.Unchanged
import Chipbox.Library.Idempotence
import Chipbox.Player.Advance
import Chipbox.Player.Editing
import Chipbox.Player.Screen
import Chipbox.Native.TrackEnd
import Chipbox.Native.Settings
import Chipbox.Native.Controls
import Chipbox.Native.Accounting
import Chipbox.Native.FadeOut
import Chipbox.Native.Delivery
import Chipbox.Native.Muting
import Chipbox.Playback.PastEnd
import Chipbox.Library.Tags
import Chipbox.Library.Container
import Chipbox.Library.Cleanup
import Chipbox.Library.Transactions
import Chipbox.Library.Recredit
import Chipbox.Library.Rewrite
import Chipbox.Library.Accounts
import Chipbox.Library.Failures
import Chipbox.Library.Deletions
import Chipbox.Native.LoadBounds
import Chipbox.Native.Tempo
import Chipbox.Playback.SkipBack
import Chipbox.Player.Retrace
import Chipbox.Library.Covers
import Chipbox.Library.Credits
import Chipbox.Native.Division
import Chipbox.Library.TagBlocks
import Chipbox.Library.Lengths
import Chipbox.Library.Lookups
import Chipbox.VgmPlay.Packing
import Chipbox.VgmPlay.Replay
import Chipbox.Usf.Lossless
