import RealMedia.Container.Draft
import RealMedia.Demux.Run
import RealMedia.Main
import RealMedia.Proofs.Ac3Cuts
import RealMedia.Proofs.Ac3Sync
import RealMedia.Proofs.ArrivalOrder
import RealMedia.Proofs.ChunkFrames
import RealMedia.Proofs.CutFile
import RealMedia.Proofs.HeaderGrammar
import RealMedia.Proofs.HeaderView
import RealMedia.Proofs.PlainAudio
import RealMedia.Proofs.ReadProgress
import RealMedia.Proofs.SinkProtocol
import RealMedia.Proofs.StreamIndependence
import RealMedia.Proofs.SwappedAc3
import RealMedia.Proofs.FragmentAccounts
import RealMedia.Proofs.LayoutLaw
import RealMedia.Proofs.CodecRecord
import RealMedia.Proofs.TrackInvariants
import RealMedia.Proofs.AacHeaders
import RealMedia.Proofs.FrameTimes
import RealMedia.Proofs.PacketsRead
import RealMedia.Proofs.BackReferences
import RealMedia.Proofs.KeyFlags
import RealMedia.Proofs.ChunkTimes
import RealMedia.Proofs.SegmentTable
import RealMedia.Proofs.BrokenChunk
import RealMedia.Proofs.IdleAssembly
import RealMedia.Proofs.HeaderForms
import RealMedia.Proofs.Remainders
import RealMedia.Proofs.CheckWord
import RealMedia.Proofs.ErrorDetection
import RealMedia.Proofs.Ac3Times
import RealMedia.Proofs.Ac3Positions
import RealMedia.Proofs.Ac3Tail
import RealMedia.Proofs.AacFrames
import RealMedia.Proofs.LookAhead
import RealMedia.Proofs.SameRest
import RealMedia.Proofs.UnknownObjects
import RealMedia.Proofs.DraftHeaders
import RealMedia.Proofs.TypeDataPlaces
import RealMedia.Proofs.PictureSizeCode
import RealMedia.Proofs.HeaderOrder
import RealMedia.Proofs.ListedFile
import RealMedia.Proofs.WalkedAlike
