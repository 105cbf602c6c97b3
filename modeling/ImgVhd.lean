import ImgVhd.Foundation.Prog
import ImgVhd.Foundation.Bytes
import ImgVhd.Foundation.Extents
import ImgVhd.Foundation.FirstSeen
import ImgVhd.Foundation.Covering
import ImgVhd.Foundation.Grounded
import ImgVhd.Foundation.Pool
import ImgVhd.Foundation.Sides
import ImgVhd.Foundation.Implements
import ImgVhd.Foundation.Liberal
import ImgVhd.Foundation.Settles
import ImgVhd.Foundation.Volatile
import ImgVhd.Format
import ImgVhd.Dynamic
import ImgVhd.Device
import ImgVhd.Reader.Bitmap
import ImgVhd.Reader.Open
import ImgVhd.Reader.Write
import ImgVhd.Reader.Create
import ImgVhd.Layout
import ImgVhd.Reading.Walk
import ImgVhd.Reading.Static
import ImgVhd.Reading.Fixed
import ImgVhd.Reading.Racing
import ImgVhd.Opening.Walk
import ImgVhd.Opening.Sparse
import ImgVhd.Opening.Inner
import ImgVhd.Opening.Unruly
import ImgVhd.Writing.Steps
import ImgVhd.Writing.Ordered
import ImgVhd.Writing.Allocate
import ImgVhd.Reading.Unruly
import ImgVhd.Writing.Block
import ImgVhd.Writing.Unruly
import ImgVhd.Writing.Call
import ImgVhd.Writing.Sections
import ImgVhd.Writing.Sound
import ImgVhd.Writing.Sequential
import ImgVhd.Writing.Threads
import ImgVhd.Writing.Packing
import ImgVhd.Writing.Ranges
import ImgVhd.Session.Reopen
import ImgVhd.Creating.Geometry
import ImgVhd.Creating.Built
import ImgVhd.Creating.Utf16
import ImgVhd.Creating.HeaderLayout
import ImgVhd.Creating.Created
import ImgVhd.Creating.Fixed
import ImgVhd.Writing.InPlace
import ImgVhd.Session.Run
import ImgVhd.Session.Room
import ImgVhd.Session.Answers
import ImgVhd.Session.Order
import ImgVhd.Session.Burst
import ImgVhd.Session.Adding
import ImgVhd.Session.Laid
import ImgVhd.Results.FlatArray
import ImgVhd.Results.Crash
import ImgVhd.Session.Weathers
import ImgVhd.Session.Outlasts
import ImgVhd.Session.Powered
import ImgVhd.Session.Failing
import ImgVhd.Session.Crowd
import ImgVhd.Results.Crowds
import ImgVhd.Results.Metadata
import ImgVhd.Chain.World
import ImgVhd.Chain.Parents
import ImgVhd.Chain.Open
import ImgVhd.Chain.Read
import ImgVhd.Results.ChainReads
import ImgVhd.Results.Hostile
import ImgVhd.Results.FixedImage
import ImgVhd.Results.HostRanges
import ImgVhd.Results.TrailingFooter
import ImgVhd.Results.Rounding
import ImgVhd.Results.RefusedCreate
import ImgVhd.Results.OpenChecks
import ImgVhd.Results.Recovery
import ImgVhd.Results.InPlaceWrites
import ImgVhd.Results.Space
import ImgVhd.Results.RefusedWrite
import ImgVhd.Results.ParentChains
import ImgVhd.Results.Writers
import ImgVhd.Results.Racing
import ImgVhd.Results.BitmapUpdate
import ImgVhd.Results.Corruption
import ImgVhd.Results.RoundTrips
import ImgVhd.Results.SiblingParents
import ImgVhd.Chain.Calm
import ImgVhd.Results.PowerLoss
import ImgVhd.Creating.Underway
import ImgVhd.Cli.Size
import ImgVhd.Cli.Host
import ImgVhd.Cli.Img
import ImgVhd.Results.ByteCounts
import ImgVhd.Cli.Copy
import ImgVhd.Results.ReadCommand
import ImgVhd.Session.Guest
import ImgVhd.Session.Growth
import ImgVhd.Session.Fixed
import ImgVhd.Results.NoPanic
import ImgVhd.Results.OwnFile
import ImgVhd.Results.CutCreate
import ImgVhd.Cli.Feed
import ImgVhd.Results.WriteCommand
import ImgVhd.Cli.Create
import ImgVhd.Results.CreateCommand
import ImgVhd.Results.FlatDevice
